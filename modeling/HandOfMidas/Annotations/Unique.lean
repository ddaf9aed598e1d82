import HandOfMidas.Annotations.Ids

/-! A store in use. The ledger beside it notes which ids have been handed out, and which of them no
    annotation carries yet. While the counter meets no level id of the files, everything handed out is
    new, so no two annotations and no two levels ever share an id. -/

namespace Midas.Annotations

open Ticker

variable {F N M : Type}

namespace AnnotationStore

def ids (s : AnnotationStore F N M) : List UInt64 := s.all.map (·.id)

def levelIds (s : AnnotationStore F N M) : List UInt64 := s.all.filterMap (·.levelId?)

end AnnotationStore

/-- The values that a counter takes next. -/
def idsFrom : UInt64 → ℕ → List UInt64
  | _, 0 => []
  | id, n + 1 => id :: idsFrom (id + 1) n

/-- A store, with the ids that it has handed out, and those among them that are still to be used. -/
structure Ledger (F N M : Type) where
  store : AnnotationStore F N M
  handed : List UInt64
  unused : List UInt64

inductive Op (F N M : Type) where
  | add (symbol : String) (kind : AnnotationKind F N M) (now : ℤ)
  | importLevelConfigs (cfgs : List (String × List (LevelConfig F))) (now : ℤ)
  | allocLevelId
  | addLevel (symbol : String) (entry : StoredLevel F) (now : ℤ)
  | remove (symbol : String) (id : UInt64)
  | removeLevel (symbol : String) (levelId : UInt64)
  | retain (symbol : String) (pred : Annotation F N M → Bool)
  | clear (symbol : String)
  | clearLevels (symbol : String)

/-- How many ids an operation takes from the counter. -/
def Op.takes : Op F N M → ℕ
  | .add .. | .allocLevelId => 1
  | .importLevelConfigs cfgs _ => (cfgs.map (·.2.length)).sum
  | _ => 0

namespace Ledger

variable (symbolKey : String → String)

def step (w : Ledger F N M) : Op F N M → Ledger F N M
  | .add symbol kind now =>
    let (store, id) := w.store.add symbolKey symbol kind now
    ⟨store, id :: w.handed, w.unused.filter fun i => kind.level?.map (·.id) ≠ some i⟩
  | op@(.importLevelConfigs cfgs now) =>
    { w with
      store := w.store.importLevelConfigs symbolKey cfgs now
      handed := (idsFrom w.store.nextId op.takes).reverse ++ w.handed }
  | .allocLevelId =>
    let (store, id) := w.store.allocLevelId
    ⟨store, id :: w.handed, id :: w.unused⟩
  | .addLevel symbol entry now =>
    { w with
      store := (w.store.addLevel symbolKey symbol entry now).1
      unused := w.unused.filter fun i => entry.level.id ≠ i }
  | .remove symbol id => { w with store := (w.store.remove symbolKey symbol id).1 }
  | .removeLevel symbol levelId => { w with store := (w.store.removeLevel symbolKey symbol levelId).1 }
  | .retain symbol pred => { w with store := (w.store.retain symbolKey symbol pred).1 }
  | .clear symbol => { w with store := w.store.clear symbolKey symbol }
  | .clearLevels symbol => { w with store := w.store.clearLevels symbolKey symbol }

/-- A level is put in with an id that was allocated for it. -/
def Allowed (w : Ledger F N M) : Op F N M → Prop
  | .add _ (.level level) _ => level.id ∈ w.unused
  | .addLevel _ entry _ => entry.level.id ∈ w.unused
  | _ => True

/-- The counter does not overflow, and meets no id that a level of the files has. -/
def Clear (files : Files F N M) (w : Ledger F N M) (op : Op F N M) : Prop :=
  w.store.nextId.toNat + op.takes < 2 ^ 64 ∧
    ∀ id ∈ idsFrom w.store.nextId op.takes, id ∉ files.levelIds

/-- What is known of the ids in the store and of those that were handed out. -/
structure Kept (files : Files F N M) (w : Ledger F N M) : Prop where
  below : ∀ id ∈ files.ids ++ w.handed, id.toNat < w.store.nextId.toNat
  once : w.handed.Nodup
  apart : ∀ id ∈ w.handed, id ∉ files.ids ∧ id ∉ files.levelIds
  allocated : ∀ id ∈ w.unused, id ∈ w.handed
  free : ∀ id ∈ w.unused, id ∉ w.store.ids ∧ id ∉ w.store.levelIds
  known : ∀ id ∈ w.store.ids, id ∈ files.ids ++ w.handed
  knownLevels : ∀ id ∈ w.store.levelIds, id ∈ files.levelIds ++ w.handed
  ids : w.store.ids.Nodup
  levels : w.store.levelIds.Nodup

variable {files : Files F N M} {w : Ledger F N M} {store : AnnotationStore F N M}

/-! ### What one operation does to the ids -/

/-- The next value of the counter is handed out. -/
theorem Kept.hand (h : Kept files w) (hfits : w.store.nextId.toNat + 1 < 2 ^ 64)
    (hclear : w.store.nextId ∉ files.levelIds) :
    Kept files ⟨w.store.setNextId (w.store.nextId + 1), w.store.nextId :: w.handed,
      w.store.nextId :: w.unused⟩ := by
  have hnext : (w.store.nextId + 1).toNat = w.store.nextId.toNat + 1 := by
    rw [UInt64.toNat_add, UInt64.toNat_one, Nat.mod_eq_of_lt hfits]
  have hnew : w.store.nextId ∉ files.ids ++ w.handed := fun hmem => (h.below _ hmem).false
  rw [List.mem_append, not_or] at hnew
  refine
    { below := fun id hid => ?_
      once := List.nodup_cons.mpr ⟨hnew.2, h.once⟩
      apart := List.forall_mem_cons.mpr ⟨⟨hnew.1, hclear⟩, h.apart⟩
      allocated := fun id hid => ?_
      free := List.forall_mem_cons.mpr ⟨⟨fun hmem => ?_, fun hmem => ?_⟩, h.free⟩
      known := fun id hid => ?_
      knownLevels := fun id hid => ?_
      ids := h.ids
      levels := h.levels }
  · change id.toNat < (w.store.nextId + 1).toNat
    rw [hnext]
    rcases List.mem_append.mp hid with hid | hid
    · exact Nat.lt_succ_of_lt (h.below id (List.mem_append_left _ hid))
    · rcases List.mem_cons.mp hid with rfl | hid
      · exact Nat.lt_succ_self _
      · exact Nat.lt_succ_of_lt (h.below id (List.mem_append_right _ hid))
  · exact (List.mem_cons.mp hid).elim (fun heq => List.mem_cons.mpr (.inl heq))
      fun hid => List.mem_cons_of_mem _ (h.allocated id hid)
  · exact (List.mem_append.mp (h.known _ hmem)).elim hnew.1 hnew.2
  · exact (List.mem_append.mp (h.knownLevels _ hmem)).elim hclear hnew.2
  · exact (List.mem_append.mp (h.known id hid)).elim (List.mem_append_left _)
      fun hid => List.mem_append_right _ (List.mem_cons_of_mem _ hid)
  · exact (List.mem_append.mp (h.knownLevels id hid)).elim (List.mem_append_left _)
      fun hid => List.mem_append_right _ (List.mem_cons_of_mem _ hid)

/-- An annotation with ids that are still to be used is put in. -/
theorem Kept.put (h : Kept files w) {a : Annotation F N M} (hall : store.all.Perm (a :: w.store.all))
    (hnext : store.nextId = w.store.nextId) (hid : a.id ∈ w.unused)
    (hlevel : ∀ i, a.levelId? = some i → i ∈ w.unused) {unused : List UInt64}
    (hunused : ∀ i ∈ unused, i ∈ w.unused ∧ i ≠ a.id ∧ a.levelId? ≠ some i) :
    Kept files ⟨store, w.handed, unused⟩ := by
  have hids : store.ids.Perm (a.id :: w.store.ids) := hall.map _
  have hlevels : store.levelIds.Perm (a.levelId?.toList ++ w.store.levelIds) := by
    refine (hall.filterMap _).trans (.of_eq ?_)
    cases ha : a.levelId? with
    | none => rw [List.filterMap_cons_none ha]; rfl
    | some i => rw [List.filterMap_cons_some ha]; rfl
  have hof (i : UInt64) : i ∈ a.levelId?.toList ↔ a.levelId? = some i := by simp
  refine
    { below := hnext ▸ h.below
      once := h.once
      apart := h.apart
      allocated := fun i hi => h.allocated i (hunused i hi).1
      free := fun i hi => ⟨fun hmem => ?_, fun hmem => ?_⟩
      known := fun i hi => ?_
      knownLevels := fun i hi => ?_
      ids := ?_
      levels := ?_ }
  · rcases List.mem_cons.mp (hids.mem_iff.mp hmem) with heq | hmem
    · exact (hunused i hi).2.1 heq
    · exact (h.free i (hunused i hi).1).1 hmem
  · rcases List.mem_append.mp (hlevels.mem_iff.mp hmem) with heq | hmem
    · exact (hunused i hi).2.2 ((hof i).mp heq)
    · exact (h.free i (hunused i hi).1).2 hmem
  · rcases List.mem_cons.mp (hids.mem_iff.mp hi) with rfl | hi
    · exact List.mem_append_right _ (h.allocated _ hid)
    · exact h.known i hi
  · rcases List.mem_append.mp (hlevels.mem_iff.mp hi) with heq | hi
    · exact List.mem_append_right _ (h.allocated i (hlevel i ((hof i).mp heq)))
    · exact h.knownLevels i hi
  · exact hids.nodup_iff.mpr (List.nodup_cons.mpr ⟨(h.free _ hid).1, h.ids⟩)
  · refine hlevels.nodup_iff.mpr (List.nodup_append'.mpr ⟨?_, h.levels, fun i hi hmem => ?_⟩)
    · cases a.levelId? with
      | none => exact List.nodup_nil
      | some i => exact List.nodup_singleton i
    · exact (h.free i (hlevel i ((hof i).mp hi))).2 hmem

/-- Some annotations are taken out. -/
theorem Kept.take (h : Kept files w) (hall : store.all.Subperm w.store.all)
    (hnext : store.nextId = w.store.nextId) : Kept files { w with store := store } := by
  obtain ⟨l, hperm, hsub⟩ := hall
  have hids : store.ids.Perm (l.map (·.id)) := (hperm.map _).symm
  have hlevels : store.levelIds.Perm (l.filterMap (·.levelId?)) := (hperm.filterMap _).symm
  have hsubIds : (l.map (·.id)).Sublist w.store.ids := hsub.map _
  have hsubLevels : (l.filterMap (·.levelId?)).Sublist w.store.levelIds := hsub.filterMap _
  exact
    { below := hnext ▸ h.below
      once := h.once
      apart := h.apart
      allocated := h.allocated
      free := fun i hi => ⟨fun hmem => (h.free i hi).1 (hsubIds.subset (hids.mem_iff.mp hmem)),
        fun hmem => (h.free i hi).2 (hsubLevels.subset (hlevels.mem_iff.mp hmem))⟩
      known := fun i hi => h.known i (hsubIds.subset (hids.mem_iff.mp hi))
      knownLevels := fun i hi => h.knownLevels i (hsubLevels.subset (hlevels.mem_iff.mp hi))
      ids := hids.nodup_iff.mpr (h.ids.sublist hsubIds)
      levels := hlevels.nodup_iff.mpr (h.levels.sublist hsubLevels) }

/-! ### The operations -/

theorem Kept.add (h : Kept files w) (symbol : String) (kind : AnnotationKind F N M) (now : ℤ)
    (hallowed : Allowed w (.add symbol kind now)) (hclear : Clear files w (.add symbol kind now)) :
    Kept files (step symbolKey w (.add symbol kind now)) := by
  obtain ⟨hfits, hclear⟩ := hclear
  have hnext := hclear w.store.nextId (List.mem_singleton_self _)
  have hhand := h.hand hfits hnext
  have hlevel (i : UInt64) (hi : kind.level?.map (·.id) = some i) : i ∈ w.unused := by
    cases kind with
    | level level =>
      obtain rfl := Option.some.inj hi
      exact hallowed
    | orderBracket bracket => cases hi
    | textNote note => cases hi
    | marker marker => cases hi
  have hall : (w.store.add symbolKey symbol kind now).1.all.Perm
      (AnnotationStore.fresh w.store.nextId kind false now :: w.store.all) :=
    (AnnotationStore.all_bumpGeneration _ _).trans (AnnotationStore.all_addRaw _ _ _ _)
  refine hhand.put hall rfl List.mem_cons_self (fun i hi => List.mem_cons_of_mem _ (hlevel i hi))
    fun i hi => ?_
  obtain ⟨hi, hne⟩ := List.mem_filter.mp hi
  refine ⟨List.mem_cons_of_mem _ hi, fun heq => ?_, of_decide_eq_true hne⟩
  have hbelow := h.below i (List.mem_append_right _ (h.allocated i hi))
  exact hbelow.ne (congrArg UInt64.toNat heq)

/-- The counter is behind every id that is still to be used. -/
theorem Kept.not_le (h : Kept files w) {id : UInt64} (hid : id ∈ w.unused) : ¬w.store.nextId ≤ id := by
  have hbelow := h.below id (List.mem_append_right _ (h.allocated id hid))
  rw [UInt64.le_iff_toNat_le]
  exact hbelow.not_ge

theorem Kept.addLevel (h : Kept files w) (symbol : String) (entry : StoredLevel F) (now : ℤ)
    (hid : entry.level.id ∈ w.unused) :
    Kept files (step symbolKey w (.addLevel symbol entry now)) := by
  have hstore : (w.store.addLevel symbolKey symbol entry now).1 =
      (w.store.addRaw symbolKey symbol
        (AnnotationStore.fresh entry.level.id (.level entry.level) entry.locked now)).bumpGeneration
          (symbolKey symbol) := by
    unfold AnnotationStore.addLevel
    dsimp only
    rw [if_neg (h.not_le hid)]
  refine h.put (a := AnnotationStore.fresh entry.level.id (.level entry.level) entry.locked now)
    ?_ (by rw [hstore]; rfl) hid (fun i hi => ?_) fun i hi => ?_
  · rw [hstore]
    exact (AnnotationStore.all_bumpGeneration _ _).trans (AnnotationStore.all_addRaw _ _ _ _)
  · obtain rfl := Option.some.inj hi
    exact hid
  · obtain ⟨hi, hne⟩ := List.mem_filter.mp hi
    have hne := of_decide_eq_true hne
    exact ⟨hi, fun heq => hne heq.symm, fun heq => hne (Option.some.inj heq)⟩

/-- The rows of a configuration, in the order in which they are imported. -/
def rowsOf (cfgs : List (String × List (LevelConfig F))) : List (String × LevelConfig F) :=
  cfgs.flatMap fun cfg => cfg.2.map fun row => (cfg.1, row)

theorem importLevelConfigs_eq (s : AnnotationStore F N M) (cfgs : List (String × List (LevelConfig F)))
    (now : ℤ) : s.importLevelConfigs symbolKey cfgs now =
      (rowsOf cfgs).foldl (fun s row => (s.importLevelConfig symbolKey row.1 row.2 now).1) s := by
  induction cfgs generalizing s with
  | nil => rfl
  | cons cfg cfgs ih =>
    rw [rowsOf, List.flatMap_cons, List.foldl_append, List.foldl_map]
    exact ih _

theorem length_rowsOf (cfgs : List (String × List (LevelConfig F))) :
    (rowsOf cfgs).length = (cfgs.map (·.2.length)).sum := by
  simp [rowsOf, List.length_flatMap]

/-- A row of a configuration takes an id from the counter, and its level is put in with it. -/
theorem Kept.importLevelConfig (h : Kept files w) (symbol : String) (cfg : LevelConfig F) (now : ℤ)
    (hfits : w.store.nextId.toNat + 1 < 2 ^ 64) (hclear : w.store.nextId ∉ files.levelIds) :
    Kept files { w with
      store := (w.store.importLevelConfig symbolKey symbol cfg now).1
      handed := w.store.nextId :: w.handed } := by
  have hput := (h.hand hfits hclear).addLevel symbolKey symbol
    ⟨AnnotationStore.levelOf w.store.nextId cfg, cfg.locked⟩ now List.mem_cons_self
  refine { hput with
    allocated := fun i hi => List.mem_cons_of_mem _ (h.allocated i hi)
    free := fun i hi => hput.free i (List.mem_filter.mpr ⟨List.mem_cons_of_mem _ hi, ?_⟩) }
  have hbelow := h.below i (List.mem_append_right _ (h.allocated i hi))
  exact decide_eq_true fun heq => hbelow.ne (congrArg UInt64.toNat heq).symm

theorem nextId_importLevelConfig (h : Kept files w) (symbol : String) (cfg : LevelConfig F) (now : ℤ)
    (hfits : w.store.nextId.toNat + 1 < 2 ^ 64) (hclear : w.store.nextId ∉ files.levelIds) :
    (w.store.importLevelConfig symbolKey symbol cfg now).1.nextId = w.store.nextId + 1 := by
  have hnot : ¬(w.store.setNextId (w.store.nextId + 1)).nextId ≤
      (AnnotationStore.levelOf w.store.nextId cfg).id :=
    (h.hand hfits hclear).not_le List.mem_cons_self
  unfold AnnotationStore.importLevelConfig AnnotationStore.addLevel AnnotationStore.allocLevelId
  dsimp only
  rw [if_neg hnot]
  rfl

theorem Kept.importRows (now : ℤ) (rows : List (String × LevelConfig F)) {w : Ledger F N M}
    (h : Kept files w) (hfits : w.store.nextId.toNat + rows.length < 2 ^ 64)
    (hclear : ∀ id ∈ idsFrom w.store.nextId rows.length, id ∉ files.levelIds) :
    Kept files { w with
      store := rows.foldl (fun s row => (s.importLevelConfig symbolKey row.1 row.2 now).1) w.store
      handed := (idsFrom w.store.nextId rows.length).reverse ++ w.handed } := by
  induction rows generalizing w with
  | nil => exact h
  | cons row rows ih =>
    rw [List.length_cons] at hfits hclear
    obtain ⟨hnext, hrest⟩ := List.forall_mem_cons.mp hclear
    have hone : w.store.nextId.toNat + 1 < 2 ^ 64 := by omega
    have hid := nextId_importLevelConfig symbolKey h row.1 row.2 now hone hnext
    have hfits' : (w.store.nextId + 1).toNat + rows.length < 2 ^ 64 := by
      rw [UInt64.toNat_add, UInt64.toNat_one, Nat.mod_eq_of_lt hone]
      omega
    have hstep := ih (h.importLevelConfig symbolKey row.1 row.2 now hone hnext) (by rwa [hid])
      (by rwa [hid])
    rw [hid] at hstep
    rw [List.length_cons, idsFrom, List.reverse_cons, List.append_assoc]
    exact hstep

/-- Every operation keeps what is known of the ids. -/
theorem Kept.step (h : Kept files w) (op : Op F N M) (hallowed : Allowed w op)
    (hclear : Clear files w op) : Kept files (step symbolKey w op) := by
  cases op with
  | add symbol kind now => exact h.add symbolKey symbol kind now hallowed hclear
  | importLevelConfigs cfgs now =>
    obtain ⟨hfits, hclear⟩ := hclear
    have hrows := Kept.importRows symbolKey now (rowsOf cfgs) h
    rw [length_rowsOf, ← importLevelConfigs_eq] at hrows
    exact hrows hfits hclear
  | allocLevelId => exact h.hand hclear.1 (hclear.2 _ (List.mem_singleton_self _))
  | addLevel symbol entry now => exact h.addLevel symbolKey symbol entry now hallowed
  | remove symbol id =>
    exact h.take (AnnotationStore.subperm_removeFirst _ _ _ _)
      (AnnotationStore.nextId_removeFirst _ _ _ _)
  | removeLevel symbol levelId =>
    exact h.take (AnnotationStore.subperm_removeFirst _ _ _ _)
      (AnnotationStore.nextId_removeFirst _ _ _ _)
  | retain symbol pred =>
    exact h.take (AnnotationStore.subperm_retain _ _ _ _) (AnnotationStore.nextId_retain _ _ _ _)
  | clear symbol =>
    exact h.take (AnnotationStore.subperm_clear _ _ _) (AnnotationStore.nextId_clear _ _ _)
  | clearLevels symbol =>
    exact h.take (AnnotationStore.subperm_retain _ _ _ _) (AnnotationStore.nextId_retain _ _ _ _)

end Ledger

end Midas.Annotations
