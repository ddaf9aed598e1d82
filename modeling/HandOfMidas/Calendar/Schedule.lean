import HandOfMidas.Calendar.Types
import HandOfMidas.Lib.Walk
import Mathlib.Data.List.Pairwise
import Mathlib.Order.Bounds.Basic

/-! What a calendar is about: the sessions of each date, in order, and instants that are dated
    accordingly. The walks from date to date find what is asked for among all sessions. -/

namespace Midas.Calendar

/-- The sessions of every date. Time before a date is before its sessions, time after it after. -/
structure Schedule where
  dateOf : Instant → ℤ
  sessions : ℤ → List Session
  lt : ∀ {d s}, s ∈ sessions d → s.opens < s.closes
  inOrder : ∀ d, (sessions d).Pairwise fun a b => a.closes ≤ b.opens
  after : ∀ {d s t}, s ∈ sessions d → dateOf t < d → t < s.opens
  before : ∀ {d s t}, s ∈ sessions d → d < dateOf t → s.closes ≤ t

namespace Schedule

variable (S : Schedule)

def all : Set Session := {s | ∃ d, s ∈ S.sessions d}

/-- The opens after `t` of the sessions of a kind. -/
def opensAfter (t : Instant) (k : SessionKind) : Set Instant :=
  {u | t < u ∧ ∃ s ∈ S.all, s.kind = k ∧ s.opens = u}

/-- The closes by `t` of the sessions of a kind. -/
def closesBy (t : Instant) (k : SessionKind) : Set Instant :=
  {u | u ≤ t ∧ ∃ s ∈ S.all, s.kind = k ∧ s.closes = u}

/-- The first open after `t` on a date. -/
def openOn (t : Instant) (k : SessionKind) (d : ℤ) : Option Instant :=
  ((S.sessions d).find? fun s => s.kind = k && t < s.opens).map Session.opens

/-- The last close by `t` on a date. -/
def closeOn (t : Instant) (k : SessionKind) (d : ℤ) : Option Instant :=
  ((S.sessions d).reverse.find? fun s => s.kind = k && s.closes ≤ t).map Session.closes

variable {S}

/-- An instant in a session has the session's date. -/
theorem dateOf_eq {d : ℤ} {s : Session} {t : Instant} (hs : s ∈ S.sessions d)
    (ht : s.contains t = true) : S.dateOf t = d := by
  obtain ⟨hle, hlt⟩ := Session.contains_iff.mp ht
  rcases lt_trichotomy (S.dateOf t) d with h | h | h
  · exact absurd (S.after hs h) (not_lt.mpr hle)
  · exact h
  · exact absurd (S.before hs h) (not_le.mpr hlt)

/-- The sessions of an earlier date are over when those of a later one open. -/
theorem closes_le_opens {d d' : ℤ} {s s' : Session} (hs : s ∈ S.sessions d) (hs' : s' ∈ S.sessions d')
    (hlt : d < d') : s.closes ≤ s'.opens := by
  have hdate : d' ≤ S.dateOf s'.opens := by
    by_contra h
    exact lt_irrefl _ (S.after hs' (not_le.mp h))
  exact S.before hs (hlt.trans_le hdate)

/-- The first session of the date that contains the instant is the only session that does. -/
theorem find_contains {s : Session} {t : Instant} (hs : s ∈ S.all) (ht : s.contains t = true) :
    (S.sessions (S.dateOf t)).find? (fun s => s.contains t) = some s := by
  obtain ⟨d, hs⟩ := hs
  obtain rfl := dateOf_eq hs ht
  obtain ⟨s', hfind⟩ := Option.isSome_iff_exists.mp
    (List.find?_isSome.mpr ⟨s, hs, ht⟩ : ((S.sessions (S.dateOf t)).find? fun s => s.contains t).isSome)
  have ht' : s'.contains t = true := by simpa using List.find?_some hfind
  have hdisjoint : (S.sessions (S.dateOf t)).Pairwise fun a b =>
      ¬ (a.contains t = true ∧ b.contains t = true) := by
    refine (S.inOrder _).imp fun {a b} hab hboth => ?_
    have ha := (Session.contains_iff.mp hboth.1).2
    have hb := (Session.contains_iff.mp hboth.2).1
    exact absurd (ha.trans_le hab) (not_lt.mpr hb)
  by_contra hne
  have hne' : s ≠ s' := fun h => hne (h ▸ hfind)
  have hsymm : Std.Symm fun a b : Session => ¬ (a.contains t = true ∧ b.contains t = true) :=
    ⟨fun _ _ h h' => h h'.symm⟩
  exact hdisjoint.forall hs (List.mem_of_find?_eq_some hfind) hne' ⟨ht, ht'⟩

theorem mem_opensAfter_of_openOn {t u : Instant} {k : SessionKind} {d : ℤ}
    (h : S.openOn t k d = some u) : u ∈ S.opensAfter t k := by
  obtain ⟨s, hfind, rfl⟩ := Option.map_eq_some_iff.mp h
  have hs := List.find?_some hfind
  simp only [Bool.and_eq_true, decide_eq_true_eq] at hs
  exact ⟨hs.2, s, ⟨d, List.mem_of_find?_eq_some hfind⟩, hs.1, rfl⟩

/-- The open found on a date is no later than any other of that date. -/
theorem openOn_le {t u : Instant} {k : SessionKind} {d : ℤ} {s : Session}
    (h : S.openOn t k d = some u) (hs : s ∈ S.sessions d) (hk : s.kind = k) (ht : t < s.opens) :
    u ≤ s.opens := by
  obtain ⟨s', hfind, rfl⟩ := Option.map_eq_some_iff.mp h
  obtain ⟨hs', earlier, later, hsplit, hnone⟩ := List.find?_eq_some_iff_append.mp hfind
  have horder := S.inOrder d
  rw [hsplit] at hs horder
  rcases List.mem_append.mp hs with hmem | hmem
  · have := hnone s hmem
    simp [hk, ht] at this
  · rcases List.mem_cons.mp hmem with rfl | hmem
    · exact le_rfl
    · have hle := (List.pairwise_cons.mp (List.pairwise_append.mp horder).2.1).1 s hmem
      have hmem' : s' ∈ S.sessions d := List.mem_of_find?_eq_some hfind
      exact (S.lt hmem').le.trans hle

theorem openOn_eq_none {t : Instant} {k : SessionKind} {d : ℤ} (h : S.openOn t k d = none) {s : Session}
    (hs : s ∈ S.sessions d) (hk : s.kind = k) : s.opens ≤ t := by
  have hnone := List.find?_eq_none.mp (Option.map_eq_none_iff.mp h) s hs
  simpa [hk] using hnone

/-- Walking up from a date before which nothing opens after `t`, over all later dates that have
    sessions, finds the least open after `t`. -/
theorem walk_up_spec {t : Instant} {k : SessionKind} {n : ℕ} {d₀ : ℤ}
    (hstart : ∀ d < d₀, ∀ s ∈ S.sessions d, s.opens ≤ t) (hend : ∀ d, d₀ + n ≤ d → S.sessions d = []) :
    (∀ u, Walk.up (S.openOn t k) n d₀ = some u → IsLeast (S.opensAfter t k) u) ∧
      (Walk.up (S.openOn t k) n d₀ = none → S.opensAfter t k = ∅) := by
  constructor
  · intro u h
    obtain ⟨e, hle, hlt, he, hnone⟩ := Walk.up_eq_some h
    refine ⟨mem_opensAfter_of_openOn he, ?_⟩
    rintro u' ⟨htu, s, ⟨d, hs⟩, hk, rfl⟩
    rcases lt_trichotomy d e with hde | rfl | hde
    · by_cases hd : d < d₀
      · exact absurd (hstart d hd s hs) (not_le.mpr htu)
      · exact absurd (openOn_eq_none (hnone d (not_lt.mp hd) hde) hs hk) (not_le.mpr htu)
    · exact openOn_le he hs hk htu
    · obtain ⟨s', hfind, rfl⟩ := Option.map_eq_some_iff.mp he
      have hs' : s' ∈ S.sessions e := List.mem_of_find?_eq_some hfind
      exact (S.lt hs').le.trans (closes_le_opens hs' hs hde)
  · intro h
    rw [Set.eq_empty_iff_forall_notMem]
    rintro u ⟨htu, s, ⟨d, hs⟩, hk, rfl⟩
    by_cases hd : d < d₀
    · exact absurd (hstart d hd s hs) (not_le.mpr htu)
    · by_cases hd' : d < d₀ + n
      · exact absurd (openOn_eq_none (Walk.up_eq_none h d (not_lt.mp hd) hd') hs hk) (not_le.mpr htu)
      · rw [hend d (not_lt.mp hd')] at hs
        cases hs

theorem mem_closesBy_of_closeOn {t u : Instant} {k : SessionKind} {d : ℤ}
    (h : S.closeOn t k d = some u) : u ∈ S.closesBy t k := by
  obtain ⟨s, hfind, rfl⟩ := Option.map_eq_some_iff.mp h
  have hs := List.find?_some hfind
  simp only [Bool.and_eq_true, decide_eq_true_eq] at hs
  exact ⟨hs.2, s, ⟨d, List.mem_reverse.mp (List.mem_of_find?_eq_some hfind)⟩, hs.1, rfl⟩

/-- The close found on a date is no earlier than any other of that date. -/
theorem le_closeOn {t u : Instant} {k : SessionKind} {d : ℤ} {s : Session}
    (h : S.closeOn t k d = some u) (hs : s ∈ S.sessions d) (hk : s.kind = k) (ht : s.closes ≤ t) :
    s.closes ≤ u := by
  obtain ⟨s', hfind, rfl⟩ := Option.map_eq_some_iff.mp h
  obtain ⟨hs', later, earlier, hsplit, hnone⟩ := List.find?_eq_some_iff_append.mp hfind
  have horder := List.pairwise_reverse.mpr (S.inOrder d)
  have hmem' := List.mem_reverse.mpr hs
  rw [hsplit] at horder hmem'
  rcases List.mem_append.mp hmem' with hmem | hmem
  · have := hnone s hmem
    simp [hk, ht] at this
  · rcases List.mem_cons.mp hmem with rfl | hmem
    · exact le_rfl
    · have hle := (List.pairwise_cons.mp (List.pairwise_append.mp horder).2.1).1 s hmem
      have hs'mem : s' ∈ S.sessions d := List.mem_reverse.mp (List.mem_of_find?_eq_some hfind)
      exact hle.trans (S.lt hs'mem).le

theorem closeOn_eq_none {t : Instant} {k : SessionKind} {d : ℤ} (h : S.closeOn t k d = none)
    {s : Session} (hs : s ∈ S.sessions d) (hk : s.kind = k) : t < s.closes := by
  have hnone := List.find?_eq_none.mp (Option.map_eq_none_iff.mp h) s (List.mem_reverse.mpr hs)
  simpa [hk] using hnone

/-- Walking down from a date after which nothing closes by `t`, over all earlier dates that have
    sessions, finds the greatest close by `t`. -/
theorem walk_down_spec {t : Instant} {k : SessionKind} {n : ℕ} {d₀ : ℤ}
    (hstart : ∀ d, d₀ < d → ∀ s ∈ S.sessions d, t < s.closes)
    (hend : ∀ d, d ≤ d₀ - n → S.sessions d = []) :
    (∀ u, Walk.down (S.closeOn t k) n d₀ = some u → IsGreatest (S.closesBy t k) u) ∧
      (Walk.down (S.closeOn t k) n d₀ = none → S.closesBy t k = ∅) := by
  constructor
  · intro u h
    obtain ⟨e, hle, hlt, he, hnone⟩ := Walk.down_eq_some h
    refine ⟨mem_closesBy_of_closeOn he, ?_⟩
    rintro u' ⟨htu, s, ⟨d, hs⟩, hk, rfl⟩
    rcases lt_trichotomy e d with hde | rfl | hde
    · by_cases hd : d₀ < d
      · exact absurd (hstart d hd s hs) (not_lt.mpr htu)
      · exact absurd (closeOn_eq_none (hnone d (not_lt.mp hd) hde) hs hk) (not_lt.mpr htu)
    · exact le_closeOn he hs hk htu
    · obtain ⟨s', hfind, rfl⟩ := Option.map_eq_some_iff.mp he
      have hs' : s' ∈ S.sessions e := List.mem_reverse.mp (List.mem_of_find?_eq_some hfind)
      exact (closes_le_opens hs hs' hde).trans (S.lt hs').le
  · intro h
    rw [Set.eq_empty_iff_forall_notMem]
    rintro u ⟨htu, s, ⟨d, hs⟩, hk, rfl⟩
    by_cases hd : d₀ < d
    · exact absurd (hstart d hd s hs) (not_lt.mpr htu)
    · by_cases hd' : d₀ - n < d
      · exact absurd (closeOn_eq_none (Walk.down_eq_none h d (not_lt.mp hd) hd') hs hk) (not_lt.mpr htu)
      · rw [hend d (not_lt.mp hd')] at hs
        cases hs

/-- The sessions that meet `[a, b)` are found on the dates from that of `a` to that of `b`, in order. -/
theorem collect_spec {a b : Instant} (hab : a < b) {n : ℕ} {d₀ : ℤ}
    (hrange : ∀ d, S.dateOf a ≤ d → d ≤ S.dateOf b → S.sessions d ≠ [] → d₀ ≤ d ∧ d < d₀ + n) :
    (∀ s, s ∈ Walk.collect (fun d => (S.sessions d).filter fun s => a < s.closes && s.opens < b) n d₀ ↔
      s ∈ S.all ∧ ∃ u, a ≤ u ∧ u < b ∧ s.contains u = true) ∧
    (Walk.collect (fun d => (S.sessions d).filter fun s => a < s.closes && s.opens < b) n d₀).Pairwise
      fun s s' => s.opens < s'.opens := by
  constructor
  · intro s
    rw [Walk.mem_collect]
    simp only [List.mem_filter, Bool.and_eq_true, decide_eq_true_eq]
    constructor
    · rintro ⟨d, _, _, hs, hclose, hopen⟩
      refine ⟨⟨d, hs⟩, max a s.opens, le_max_left _ _, max_lt hab hopen, ?_⟩
      rw [Session.contains_iff]
      exact ⟨le_max_right _ _, max_lt hclose (S.lt hs)⟩
    · rintro ⟨⟨d, hs⟩, u, hau, hub, hu⟩
      obtain ⟨hopen, hclose⟩ := Session.contains_iff.mp hu
      have ha : S.dateOf a ≤ d := by
        by_contra h
        exact absurd (S.before hs (not_le.mp h)) (not_le.mpr (hau.trans_lt hclose))
      have hb : d ≤ S.dateOf b := by
        by_contra h
        exact absurd (S.after hs (not_le.mp h)) (not_lt.mpr (hopen.trans hub.le))
      obtain ⟨hle, hlt⟩ := hrange d ha hb (List.ne_nil_of_mem hs)
      exact ⟨d, hle, hlt, hs, hau.trans_lt hclose, hopen.trans_lt hub⟩
  · refine Walk.pairwise_collect (fun d => ?_) (fun d e hde s hs s' hs' => ?_) n d₀
    · refine List.Pairwise.filter _ ((S.inOrder d).imp_of_mem fun {s s'} hs _ hle => ?_)
      exact (S.lt hs).trans_le hle
    · have hs := (List.mem_filter.mp hs).1
      exact (S.lt hs).trans_le (closes_le_opens hs (List.mem_filter.mp hs').1 hde)

end Schedule

end Midas.Calendar
