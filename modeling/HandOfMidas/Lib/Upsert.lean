import Mathlib.Data.List.Basic
import Mathlib.Data.List.Induction
import Mathlib.Order.Basic
import Mathlib.Order.Lattice

/-! A row of entries in the order of their keys, grown at its end: an entry of the last key is merged
    into the last one, a later one follows it, and an earlier one is dropped. Entries that come in
    order leave one for each key, which all entries of that key are merged into. -/

namespace Midas.Upsert

variable {α κ : Type*} [LinearOrder κ] (key : α → κ) (merge : α → α → α)

def upsert (l : List α) (a : α) : List α :=
  match l.getLast? with
  | none => [a]
  | some x =>
    if key x = key a then l.dropLast ++ [merge x a] else if key a < key x then l else l ++ [a]

/-- The keys ascend. -/
def Ascending (l : List α) : Prop := (l.map key).Pairwise (· < ·)

/-- The first entry with all others merged into it. -/
def reduce : List α → Option α
  | [] => none
  | a :: l => some (l.foldl merge a)

variable {merge}

theorem upsert_nil (a : α) : upsert key merge [] a = [a] := rfl

theorem upsert_same (l : List α) {x a : α} (h : key x = key a) :
    upsert key merge (l ++ [x]) a = l ++ [merge x a] := by
  simp [upsert, h]

theorem upsert_later (l : List α) {x a : α} (h : key x < key a) :
    upsert key merge (l ++ [x]) a = l ++ [x] ++ [a] := by
  simp [upsert, h.ne, h.not_gt]

theorem upsert_earlier (l : List α) {x a : α} (h : key a < key x) :
    upsert key merge (l ++ [x]) a = l ++ [x] := by
  simp [upsert, h, h.ne']

variable {key}

theorem upsert_ne_nil (l : List α) (a : α) : upsert key merge l a ≠ [] := by
  rcases List.eq_nil_or_concat' l with rfl | ⟨init, x, rfl⟩
  · simp [upsert_nil]
  · rcases lt_trichotomy (key x) (key a) with hlt | heq | hgt
    · simp [upsert_later key init hlt]
    · simp [upsert_same key init heq]
    · simp [upsert_earlier key init hgt]

theorem ascending_concat {l : List α} {a : α} :
    Ascending key (l ++ [a]) ↔ Ascending key l ∧ ∀ x ∈ l, key x < key a := by
  simp [Ascending, List.pairwise_append]

/-- In a row that ascends only the last entry matters for the next. -/
theorem ascending_concat_concat {l : List α} {x a : α} (h : Ascending key (l ++ [x])) :
    Ascending key (l ++ [x] ++ [a]) ↔ key x < key a := by
  rw [ascending_concat]
  constructor
  · rintro ⟨-, hall⟩
    exact hall x (by simp)
  · intro hxa
    refine ⟨h, fun y hy => ?_⟩
    rcases List.mem_append.mp hy with hy | hy
    · exact ((ascending_concat.mp h).2 y hy).trans hxa
    · exact List.mem_singleton.mp hy ▸ hxa

theorem ascending_upsert (hmerge : ∀ x a, key x = key a → key (merge x a) = key a) {l : List α}
    (h : Ascending key l) (a : α) : Ascending key (upsert key merge l a) := by
  rcases List.eq_nil_or_concat' l with rfl | ⟨init, x, rfl⟩
  · simp [upsert_nil, Ascending]
  · rcases lt_trichotomy (key x) (key a) with hlt | heq | hgt
    · rw [upsert_later key init hlt]
      exact (ascending_concat_concat h).mpr hlt
    · rw [upsert_same key init heq]
      obtain ⟨hinit, hlast⟩ := ascending_concat.mp h
      refine ascending_concat.mpr ⟨hinit, fun y hy => ?_⟩
      rw [hmerge x a heq, ← heq]
      exact hlast y hy
    · rw [upsert_earlier key init hgt]
      exact h

theorem reduce_concat (l : List α) (a : α) :
    reduce merge (l ++ [a]) = some ((reduce merge l).elim a (merge · a)) := by
  cases l with
  | nil => rfl
  | cons b l => simp [reduce]

/-- What holds after every merge holds of the reduced entry. -/
theorem reduce_induction {P : List α → α → Prop} (hone : ∀ a, P [a] a)
    (hmore : ∀ l x a, P l x → P (l ++ [a]) (merge x a)) {l : List α} :
    ∀ {x : α}, reduce merge l = some x → P l x := by
  induction l using List.reverseRecOn with
  | nil => exact nofun
  | append_singleton l a ih =>
    intro x hx
    rw [reduce_concat] at hx
    cases hl : reduce merge l with
    | none =>
      obtain rfl : l = [] := by
        cases l with
        | nil => rfl
        | cons b l => cases hl
      rw [hl] at hx
      cases hx
      exact hone a
    | some y =>
      rw [hl] at hx
      cases hx
      exact hmore l y a (ih hl)

/-- The entries of one key. -/
def bucket (key : α → κ) (as : List α) (k : κ) : List α := as.filter (key · = k)

theorem bucket_concat_same (as : List α) (a : α) :
    bucket key (as ++ [a]) (key a) = bucket key as (key a) ++ [a] := by
  simp [bucket]

theorem bucket_concat_other (as : List α) {a : α} {k : κ} (h : key a ≠ k) :
    bucket key (as ++ [a]) k = bucket key as k := by
  simp [bucket, h]

/-- What a row holds after entries that came in order. -/
structure Reduced (key : α → κ) (merge : α → α → α) (as rows : List α) : Prop where
  ascending : Ascending key rows
  reduced : ∀ r ∈ rows, reduce merge (bucket key as (key r)) = some r
  all : ∀ a ∈ as, ∃ r ∈ rows, key r = key a

/-- The key of a row is one of the entries. -/
theorem Reduced.exists_mem {as rows : List α} (h : Reduced key merge as rows) {r : α} (hr : r ∈ rows) :
    ∃ a ∈ as, key a = key r := by
  have hred := h.reduced r hr
  cases hb : bucket key as (key r) with
  | nil =>
    rw [hb] at hred
    cases hred
  | cons a l =>
    have ha : a ∈ bucket key as (key r) := hb ▸ List.mem_cons_self
    obtain ⟨ha, hkey⟩ := List.mem_filter.mp ha
    exact ⟨a, ha, by simpa using hkey⟩

/-- The next entry in order. -/
theorem Reduced.upsert (hmerge : ∀ x a, key x = key a → key (merge x a) = key a) {as rows : List α}
    (h : Reduced key merge as rows) {a : α} (ha : ∀ b ∈ as, key b ≤ key a) :
    Reduced key merge (as ++ [a]) (Upsert.upsert key merge rows a) := by
  have hascending := ascending_upsert hmerge h.ascending a
  rcases List.eq_nil_or_concat' rows with rfl | ⟨init, x, rfl⟩
  · obtain rfl : as = [] := by
      by_contra hne
      obtain ⟨b, hb⟩ := List.exists_mem_of_ne_nil as hne
      obtain ⟨r, hr, -⟩ := h.all b hb
      cases hr
    exact ⟨hascending, by simp [upsert_nil, bucket, reduce], by simp [upsert_nil]⟩
  obtain ⟨hinit, hlast⟩ := ascending_concat.mp h.ascending
  have hle (r : α) (hr : r ∈ init ++ [x]) : key r ≤ key x := by
    rcases List.mem_append.mp hr with hr | hr
    · exact (hlast r hr).le
    · exact (List.mem_singleton.mp hr ▸ le_rfl)
  have hold (r : α) (hr : r ∈ init ++ [x]) (hne : key a ≠ key r) :
      reduce merge (bucket key (as ++ [a]) (key r)) = some r := by
    rw [bucket_concat_other as hne]
    exact h.reduced r hr
  obtain ⟨b, hb, hbx⟩ := h.exists_mem (r := x) (by simp)
  rcases (hbx ▸ ha b hb : key x ≤ key a).lt_or_eq with hlt | heq
  · have hnone : bucket key as (key a) = [] := by
      refine List.filter_eq_nil_iff.mpr fun c hc => ?_
      obtain ⟨r, hr, hrc⟩ := h.all c hc
      simpa using ((hrc ▸ hle r hr).trans_lt hlt).ne
    rw [upsert_later key init hlt] at hascending ⊢
    refine ⟨hascending, fun r hr => ?_, fun c hc => ?_⟩
    · rcases List.mem_append.mp hr with hr | hr
      · exact hold r hr ((hle r hr).trans_lt hlt).ne'
      · obtain rfl := List.mem_singleton.mp hr
        rw [bucket_concat_same, hnone]
        rfl
    · rcases List.mem_append.mp hc with hc | hc
      · obtain ⟨r, hr, hrc⟩ := h.all c hc
        exact ⟨r, List.mem_append_left _ hr, hrc⟩
      · exact ⟨a, by simp, by rw [List.mem_singleton.mp hc]⟩
  · rw [upsert_same key init heq] at hascending ⊢
    have hkey := hmerge x a heq
    refine ⟨hascending, fun r hr => ?_, fun c hc => ?_⟩
    · rcases List.mem_append.mp hr with hr | hr
      · exact hold r (List.mem_append_left _ hr) (heq ▸ (hlast r hr).ne')
      · obtain rfl := List.mem_singleton.mp hr
        rw [hkey, bucket_concat_same, reduce_concat, ← heq, h.reduced x (by simp)]
        rfl
    · rcases List.mem_append.mp hc with hc | hc
      · obtain ⟨r, hr, hrc⟩ := h.all c hc
        rcases List.mem_append.mp hr with hr | hr
        · exact ⟨r, List.mem_append_left _ hr, hrc⟩
        · obtain rfl := List.mem_singleton.mp hr
          exact ⟨merge r a, by simp, by rw [hkey, ← heq, hrc]⟩
      · exact ⟨merge x a, by simp, by rw [hkey, List.mem_singleton.mp hc]⟩

/-- Entries in order leave one row for each key. -/
theorem reduced_foldl (hmerge : ∀ x a, key x = key a → key (merge x a) = key a) {as : List α}
    (h : as.Pairwise (key · ≤ key ·)) :
    Reduced key merge as (as.foldl (Upsert.upsert key merge) []) := by
  induction as using List.reverseRecOn with
  | nil => exact ⟨.nil, by simp, by simp⟩
  | append_singleton as a ih =>
    obtain ⟨hold, -, hlast⟩ := List.pairwise_append.mp h
    rw [List.foldl_append]
    exact (ih hold).upsert hmerge fun b hb => hlast b hb a List.mem_cons_self

end Midas.Upsert
