import HandOfMidas.Annotations.Unique

/-! Levels are found, changed and removed by the id that they carry inside, so where these ids are
    unique each operation acts on the level that was meant, and on no other. -/

namespace Midas.Annotations

open Ticker

variable {F N M : Type}

namespace AnnotationStore

variable (symbolKey : String → String)

/-- Every level can be found, changed and removed by its id, and what else there is stays. -/
def Acts (s : AnnotationStore F N M) : Prop :=
  ∀ symbol l₁ a l₂ level, s.get symbolKey symbol = l₁ ++ a :: l₂ → a.kind = .level level →
    (∀ walk : List (SymbolAnnotations F N M), walk.Perm s.bySymbol.items →
      findLevel walk level.id = some (symbolKey symbol, ⟨level, a.locked⟩)) ∧
    (∀ f now, (s.updateLevel symbolKey symbol level.id f now).2 = true ∧
      ∀ other, (s.updateLevel symbolKey symbol level.id f now).1.get symbolKey other =
        if symbolKey other = symbolKey symbol then l₁ ++ changeLevel f now a :: l₂
        else s.get symbolKey other) ∧
    (s.removeLevel symbolKey symbol level.id).2 = true ∧
      ∀ other, (s.removeLevel symbolKey symbol level.id).1.get symbolKey other =
        if symbolKey other = symbolKey symbol then l₁ ++ l₂ else s.get symbolKey other

variable {symbolKey} {s : AnnotationStore F N M} {a : Annotation F N M}
  {l₁ l₂ : List ( Annotation F N M)} {id : UInt64}

/-- Where level ids are unique, no annotation around a level carries its id. -/
theorem not_levelId?_of_nodup (h : ((l₁ ++ a :: l₂).filterMap (·.levelId?)).Nodup)
    (ha : a.levelId? = some id) : ∀ b ∈ l₁, b.levelId? ≠ some id := by
  intro b hb heq
  rw [List.filterMap_append, List.filterMap_cons_some ha, List.nodup_append'] at h
  exact h.2.2 (List.mem_filterMap.mpr ⟨b, hb, heq⟩) List.mem_cons_self

theorem setFirst_append {p : Annotation F N M → Bool} (f : Annotation F N M → Annotation F N M)
    (hl : ∀ b ∈ l₁, ¬p b) (ha : p a) : setFirst p f (l₁ ++ a :: l₂) = l₁ ++ f a :: l₂ := by
  induction l₁ with
  | nil => rw [List.nil_append, setFirst, if_pos ha, List.nil_append]
  | cons b l₁ ih =>
    obtain ⟨hb, hl⟩ := List.forall_mem_cons.mp hl
    rw [List.cons_append, setFirst, if_neg hb, ih hl, List.cons_append]

theorem eraseP_append {p : Annotation F N M → Bool} (hl : ∀ b ∈ l₁, ¬p b) (ha : p a) :
    (l₁ ++ a :: l₂).eraseP p = l₁ ++ l₂ := by
  rw [List.eraseP_append_right _ hl, List.eraseP_cons_of_pos ha]

/-- A symbol that has annotations is on record. -/
theorem get?_of_get {symbol : String} (h : s.get symbolKey symbol = l₁ ++ a :: l₂) :
    ∃ sa, s.bySymbol.get? (symbolKey symbol) = some sa ∧ sa.annotations = l₁ ++ a :: l₂ := by
  unfold get at h
  cases hsa : s.bySymbol.get? (symbolKey symbol) with
  | none => simp [hsa] at h
  | some sa =>
    rw [hsa, Option.map_some, Option.getD_some] at h
    exact ⟨sa, rfl, h⟩

/-- The annotations of one symbol are among those of all. -/
theorem nodup_of_get? {sa : SymbolAnnotations F N M} {key : String} (hlevels : s.levelIds.Nodup)
    (h : s.bySymbol.get? key = some sa) : (sa.annotations.filterMap (·.levelId?)).Nodup := by
  have hperm := (all_of_get? h).filterMap (·.levelId?)
  rw [List.filterMap_append] at hperm
  exact (hperm.nodup_iff.mp hlevels).of_append_left

theorem get_bumped {sa : SymbolAnnotations F N M} {symbol : String}
    (hsa : s.bySymbol.get? (symbolKey symbol) = some sa) (annotations : List ( Annotation F N M))
    (other : String) :
    ((s.setAnnotations sa annotations).bumpGeneration (symbolKey symbol)).get symbolKey other =
      if symbolKey other = symbolKey symbol then annotations else s.get symbolKey other := by
  rw [get_bumpGeneration, get_setAnnotations _ hsa]

theorem removeLevel_spec (hlevels : s.levelIds.Nodup) {symbol : String}
    (hget : s.get symbolKey symbol = l₁ ++ a :: l₂) (ha : a.levelId? = some id) :
    (s.removeLevel symbolKey symbol id).2 = true ∧
      ∀ other, (s.removeLevel symbolKey symbol id).1.get symbolKey other =
        if symbolKey other = symbolKey symbol then l₁ ++ l₂ else s.get symbolKey other := by
  obtain ⟨sa, hsa, heq⟩ := get?_of_get hget
  have hnodup := nodup_of_get? hlevels hsa
  rw [heq] at hnodup
  have hbefore : ∀ b ∈ l₁, ¬decide (b.levelId? = some id) = true := fun b hb => by
    simpa using not_levelId?_of_nodup hnodup ha b hb
  have hany : sa.annotations.any (fun b => decide (b.levelId? = some id)) = true := by
    rw [heq, List.any_append, List.any_cons, decide_eq_true ha, Bool.true_or, Bool.or_true]
  unfold removeLevel removeFirst
  rw [hsa]
  dsimp only
  rw [if_pos hany, heq, eraseP_append hbefore (decide_eq_true ha)]
  exact ⟨rfl, get_bumped hsa _⟩

theorem updateLevel_spec (hlevels : s.levelIds.Nodup) {symbol : String}
    (hget : s.get symbolKey symbol = l₁ ++ a :: l₂) (ha : a.levelId? = some id)
    (f : HorizontalLevel F → Bool → HorizontalLevel F × Bool) (now : ℤ) :
    (s.updateLevel symbolKey symbol id f now).2 = true ∧
      ∀ other, (s.updateLevel symbolKey symbol id f now).1.get symbolKey other =
        if symbolKey other = symbolKey symbol then l₁ ++ changeLevel f now a :: l₂
        else s.get symbolKey other := by
  obtain ⟨sa, hsa, heq⟩ := get?_of_get hget
  have hnodup := nodup_of_get? hlevels hsa
  rw [heq] at hnodup
  have hbefore : ∀ b ∈ l₁, ¬decide (b.levelId? = some id) = true := fun b hb => by
    simpa using not_levelId?_of_nodup hnodup ha b hb
  have hany : sa.annotations.any (fun b => decide (b.levelId? = some id)) = true := by
    rw [heq, List.any_append, List.any_cons, decide_eq_true ha, Bool.true_or, Bool.or_true]
  unfold updateLevel
  rw [hsa]
  dsimp only
  rw [if_pos hany, heq, setFirst_append _ hbefore (decide_eq_true ha)]
  exact ⟨rfl, get_bumped hsa _⟩

/-- What `find_level` makes of another annotation. -/
theorem findLevel_other (key : String) {b : Annotation F N M} {id : UInt64}
    (hb : b.levelId? ≠ some id) :
    (match b.kind with
      | .level l => if l.id = id then some (key, (⟨l, b.locked⟩ : StoredLevel F)) else none
      | _ => none) = none := by
  split
  · rename_i l hl
    refine if_neg fun heq => hb ?_
    rw [ Annotation.levelId?, hl, ← heq]
    rfl
  · rfl

theorem findLevel_spec (hlevels : s.levelIds.Nodup) {symbol : String} {level : HorizontalLevel F}
    (hget : s.get symbolKey symbol = l₁ ++ a :: l₂) (ha : a.kind = .level level)
    {walk : List (SymbolAnnotations F N M)} (hwalk : walk.Perm s.bySymbol.items) :
    findLevel walk level.id = some (symbolKey symbol, ⟨level, a.locked⟩) := by
  obtain ⟨sa, hsa, heq⟩ := get?_of_get hget
  obtain ⟨w₁, w₂, rfl⟩ := List.append_of_mem (hwalk.mem_iff.mpr (Store.mem_of_get? hsa))
  have hid : a.levelId? = some level.id := by rw [ Annotation.levelId?, ha]; rfl
  have hperm := (hwalk.flatMap_right SymbolAnnotations.annotations).filterMap Annotation.levelId?
  have hnodup := hperm.nodup_iff.mpr hlevels
  rw [List.flatMap_append, List.flatMap_cons, heq, List.append_assoc, ← List.append_assoc] at hnodup
  have hbefore : ∀ b ∈ w₁.flatMap (·.annotations) ++ l₁, b.levelId? ≠ some level.id :=
    not_levelId?_of_nodup hnodup hid
  unfold findLevel
  rw [List.findSome?_append, List.findSome?_eq_none_iff.mpr ?_, Option.none_or, List.findSome?_cons]
  · rw [heq, List.findSome?_append, List.findSome?_eq_none_iff.mpr ?_, Option.none_or,
      List.findSome?_cons, ha]
    · simp [Store.key_of_get? hsa]
    · exact fun b hb => findLevel_other _ (hbefore b (List.mem_append_right _ hb))
  · intro sb hsb
    refine List.findSome?_eq_none_iff.mpr fun b hb => findLevel_other _ (hbefore b ?_)
    exact List.mem_append_left _ (List.mem_flatMap.mpr ⟨sb, hsb, hb⟩)

/-- Where level ids are unique, every operation acts on the level meant. -/
theorem acts_of_nodup (hlevels : s.levelIds.Nodup) : s.Acts symbolKey := by
  intro symbol l₁ a l₂ level hget ha
  have hid : a.levelId? = some level.id := by rw [ Annotation.levelId?, ha]; rfl
  exact ⟨fun walk hwalk => findLevel_spec hlevels hget ha hwalk,
    updateLevel_spec hlevels hget hid, removeLevel_spec hlevels hget hid⟩

end AnnotationStore

/-! ### Runs -/

namespace Ledger

variable (symbolKey : String → String) (files : Files F N M)

/-- Ids of annotations are unique, and ids of levels, so levels are found by them; what was handed out is
    new. -/
structure Unique (w : Ledger F N M) : Prop where
  ids : w.store.ids.Nodup
  levels : w.store.levelIds.Nodup
  acts : w.store.Acts symbolKey
  once : w.handed.Nodup
  apart : ∀ id ∈ w.handed, id ∉ files.ids ∧ id ∉ files.levelIds

variable {files}

theorem Kept.unique {w : Ledger F N M} (h : Kept files w) : Unique symbolKey files w :=
  ⟨h.ids, h.levels, AnnotationStore.acts_of_nodup h.levels, h.once, h.apart⟩

section
variable [F64 F]

/-- The store of the files, before anything is asked of it. -/
def start (files : Files F N M) : Ledger F N M := ⟨storeFromFiles symbolKey files, [], []⟩

theorem kept_start (hids : files.ids.Nodup) (hlevels : files.levelIds.Nodup)
    (hfits : ∀ id ∈ files.ids, id.toNat + 1 < 2 ^ 64) : Kept files (start symbolKey files) := by
  obtain ⟨hall, hbelow⟩ := storeFromFiles_spec symbolKey files hfits
  have hstored : (start symbolKey files).store.ids.Perm ((files.all.filterMap loaded).map (·.id)) :=
    hall.map _
  have hstoredLevels : (start symbolKey files).store.levelIds.Perm files.levelIds := by
    refine (hall.filterMap _).trans (.of_eq ?_)
    exact filterMap_loaded_levelIds files.all
  have hsub := ids_filterMap_loaded files.all
  exact
    { below := fun id hid => hbelow id ((List.append_nil files.ids) ▸ hid)
      once := List.nodup_nil
      apart := fun id hid => absurd hid List.not_mem_nil
      allocated := fun id hid => absurd hid List.not_mem_nil
      free := fun id hid => absurd hid List.not_mem_nil
      known := fun id hid => List.mem_append_left _ (hsub.subset (hstored.mem_iff.mp hid))
      knownLevels := fun id hid => List.mem_append_left _ (hstoredLevels.mem_iff.mp hid)
      ids := hstored.nodup_iff.mpr (hids.sublist hsub)
      levels := hstoredLevels.nodup_iff.mpr hlevels }

/-- Ids stay unique in every run that puts levels in with ids allocated for them, as long as the counter
    meets no level id of the files. -/
theorem ids_stay_unique (hids : files.ids.Nodup) (hlevels : files.levelIds.Nodup)
    (hfits : ∀ id ∈ files.ids, id.toNat + 1 < 2 ^ 64) (ops : List (Op F N M))
    (hallowed : AllSteps (step symbolKey) Allowed (start symbolKey files) ops)
    (hclear : AllSteps (step symbolKey) (Clear files) (start symbolKey files) ops) :
    AllStates (step symbolKey) (Unique symbolKey files) (start symbolKey files) ops := by
  intro pre hpre
  refine Kept.unique symbolKey ?_
  induction pre using List.reverseRecOn with
  | nil => exact kept_start symbolKey hids hlevels hfits
  | append_singleton pre op ih =>
    rw [run_concat]
    have hpre' : pre <+: ops := (List.prefix_append pre [op]).trans hpre
    exact (ih hpre').step symbolKey op (hallowed pre op hpre) (hclear pre op hpre)

end

/-- A level as the app draws it, at a price of one hundred. -/
def levelAt (id : UInt64) : HorizontalLevel ℚ := ⟨id, ⟨100, (1, 0, 0, 1), 1⟩, none, .none⟩

/-- A level is allocated, put in, and another one that was loaded is taken out. -/
theorem ids_stay_unique_loaded :
    let files : Files ℚ Unit Unit :=
      [("AAPL", [⟨1, .level (levelAt 1), .active, none, false, 0, 0⟩])]
    AllStates (step id) (Unique id files) (start id files)
      [.allocLevelId, .addLevel "AAPL" ⟨levelAt 2, false⟩ 5, .removeLevel "AAPL" 1] := by
  refine ids_stay_unique id (by decide) (by decide)
    (@of_decide_eq_true _ (List.decidableBAll _ _) rfl) _ ?_ ?_
  · simp only [allSteps_cons, allSteps_nil, and_true]
    exact ⟨trivial, by simp only [Allowed]; decide, trivial⟩
  · simp only [allSteps_cons, allSteps_nil, and_true]
    exact ⟨⟨by decide, @of_decide_eq_true _ (List.decidableBAll _ _) rfl⟩,
      ⟨by decide, @of_decide_eq_true _ (List.decidableBAll _ _) rfl⟩,
      ⟨by decide, @of_decide_eq_true _ (List.decidableBAll _ _) rfl⟩⟩

/-- A file where the level of annotation 1 has the id 2: the next id that is allocated for a level is 2
    again. -/
theorem level_id_taken :
    let files : Files ℚ Unit Unit :=
      [("AAPL", [⟨1, .level (levelAt 2), .active, none, false, 0, 0⟩])]
    let ops : List (Op ℚ Unit Unit) := [.allocLevelId, .addLevel "AAPL" ⟨levelAt 2, false⟩ 5]
    files.ids.Nodup ∧ files.levelIds.Nodup ∧ AllSteps (step id) Allowed (start id files) ops ∧
      ¬AllStates (step id) (Unique id files) (start id files) ops := by
  refine ⟨by decide, by decide, ?_, fun h => ?_⟩
  · simp only [allSteps_cons, allSteps_nil, and_true]
    exact ⟨trivial, by simp only [Allowed]; decide⟩
  · exact absurd (AllStates.last _ h).levels (by decide)

end Ledger

end Midas.Annotations
