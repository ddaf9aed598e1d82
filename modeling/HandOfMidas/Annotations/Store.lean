import HandOfMidas.Lib.Store
import HandOfMidas.Ticker.Bracket

/-! The annotations of all charts (`annotation_store/mod.rs`) and how they are loaded from their files
    (`store_from_files`). One counter serves two spaces of ids: the ids of annotations, and the ids
    that levels carry inside. `SymbolKey::new`, which trims and uppercases, is a parameter, as are
    notes and markers; the clock is an argument. Each operation puts an annotation in, or takes some
    out, whatever the symbol; and what a symbol has is changed under that symbol only. -/

namespace Midas.Annotations

open Ticker

/-- `LevelIcon`. -/
inductive LevelIcon where | none | arrowUp | arrowDown | star | flag | warning
  deriving DecidableEq

/-- `LevelIcon::from_str_id`. -/
def LevelIcon.fromStrId : String → LevelIcon
  | "arrow_up" => .arrowUp
  | "arrow_down" => .arrowDown
  | "star" => .star
  | "flag" => .flag
  | "warning" => .warning
  | _ => .none

/-- `PriceLine`, with its stroke; the extent and the dash pattern are the defaults throughout. -/
structure PriceLine (F : Type) where
  price : F
  color : F × F × F × F
  width : F

structure HorizontalLevel (F : Type) where
  id : UInt64
  line : PriceLine F
  label : Option String
  icon : LevelIcon

/-- `AnnotationKind`, with notes `N` and markers `M`. -/
inductive AnnotationKind (F N M : Type) where
  | level (level : HorizontalLevel F)
  | orderBracket (bracket : OrderBracket F)
  | textNote (note : N)
  | marker (marker : M)

inductive Presence where | active | ghost | hidden
  deriving DecidableEq

structure Annotation (F N M : Type) where
  id : UInt64
  kind : AnnotationKind F N M
  presence : Presence
  visibleTimeframes : Option (List String)
  locked : Bool
  createdAt : ℤ
  modifiedAt : ℤ

structure StoredLevel (F : Type) where
  level : HorizontalLevel F
  locked : Bool

structure LevelConfig (F : Type) where
  price : F
  color : F × F × F × F
  lineWidth : F
  label : Option String
  icon : String
  locked : Bool

variable {F N M : Type}

def AnnotationKind.level? : AnnotationKind F N M → Option (HorizontalLevel F)
  | .level l => some l
  | _ => none

/-- The id that a level carries inside. -/
def Annotation.levelId? (a : Annotation F N M) : Option UInt64 := a.kind.level?.map (·.id)

/-- `SymbolAnnotations`, with the symbol that it is filed under. -/
structure SymbolAnnotations (F N M : Type) where
  key : String
  annotations : List ( Annotation F N M)
  generation : UInt64

structure AnnotationStore (F N M : Type) where
  bySymbol : Store (SymbolAnnotations.key (F := F) (N := N) (M := M))
  globalGeneration : UInt64
  nextId : UInt64

namespace AnnotationStore

def new : AnnotationStore F N M := ⟨.empty, 0, 1⟩

variable (symbolKey : String → String)

def get (s : AnnotationStore F N M) (symbol : String) : List ( Annotation F N M) :=
  ((s.bySymbol.get? (symbolKey symbol)).map (·.annotations)).getD []

/-- `bump_generation`. -/
def bumpGeneration (s : AnnotationStore F N M) (key : String) : AnnotationStore F N M :=
  { s with
    bySymbol :=
      match s.bySymbol.get? key with
      | some sa => s.bySymbol.put { sa with generation := sa.generation + 1 }
      | none => s.bySymbol
    globalGeneration := s.globalGeneration + 1 }

/-- `add_raw`. -/
def addRaw (s : AnnotationStore F N M) (symbol : String) ( annotation : Annotation F N M) :
    AnnotationStore F N M :=
  let key := symbolKey symbol
  let sa := (s.bySymbol.get? key).getD ⟨key, [], 0⟩
  { s with
    bySymbol := s.bySymbol.put ⟨key, sa.annotations ++ [ annotation], sa.generation⟩ }

/-- `set_next_id`. -/
def setNextId (s : AnnotationStore F N M) (nextId : UInt64) : AnnotationStore F N M :=
  { s with nextId := nextId }

/-- The wrapper of a fresh annotation. -/
def fresh (id : UInt64) (kind : AnnotationKind F N M) (locked : Bool) (now : ℤ) : Annotation F N M :=
  ⟨id, kind, .active, none, locked, now, now⟩

def add (s : AnnotationStore F N M) (symbol : String) (kind : AnnotationKind F N M) (now : ℤ) :
    AnnotationStore F N M × UInt64 :=
  let id := s.nextId
  let s := s.setNextId (s.nextId + 1)
  let s := s.addRaw symbolKey symbol (fresh id kind false now)
  (s.bumpGeneration (symbolKey symbol), id)

/-- Write over the annotations of a symbol. -/
def setAnnotations (s : AnnotationStore F N M) (sa : SymbolAnnotations F N M)
    (annotations : List ( Annotation F N M)) : AnnotationStore F N M :=
  { s with bySymbol := s.bySymbol.put { sa with annotations := annotations } }

/-- Take out the first annotation that a predicate holds of. -/
def removeFirst (s : AnnotationStore F N M) (symbol : String) (p : Annotation F N M → Bool) :
    AnnotationStore F N M × Bool :=
  match s.bySymbol.get? (symbolKey symbol) with
  | none => (s, false)
  | some sa =>
    if sa.annotations.any p then
      ((s.setAnnotations sa (sa.annotations.eraseP p)).bumpGeneration (symbolKey symbol), true)
    else (s, false)

/-- `remove`. -/
def remove (s : AnnotationStore F N M) (symbol : String) (id : UInt64) : AnnotationStore F N M × Bool :=
  s.removeFirst symbolKey symbol fun a => a.id = id

/-- `remove_level`. -/
def removeLevel (s : AnnotationStore F N M) (symbol : String) (levelId : UInt64) :
    AnnotationStore F N M × Bool :=
  s.removeFirst symbolKey symbol fun a => a.levelId? = some levelId

def clear (s : AnnotationStore F N M) (symbol : String) : AnnotationStore F N M :=
  match s.bySymbol.get? (symbolKey symbol) with
  | none => s
  | some sa =>
    if sa.annotations.isEmpty then s
    else (s.setAnnotations sa []).bumpGeneration (symbolKey symbol)

def retain (s : AnnotationStore F N M) (symbol : String) (pred : Annotation F N M → Bool) :
    AnnotationStore F N M × ℕ :=
  match s.bySymbol.get? (symbolKey symbol) with
  | none => (s, 0)
  | some sa =>
    let before := sa.annotations.length
    let s := s.setAnnotations sa (sa.annotations.filter pred)
    let removed := before - (sa.annotations.filter pred).length
    if removed > 0 then (s.bumpGeneration (symbolKey symbol), removed) else (s, removed)

/-- `clear_levels`. -/
def clearLevels (s : AnnotationStore F N M) (symbol : String) : AnnotationStore F N M :=
  (s.retain symbolKey symbol fun a => a.kind.level?.isNone).1

/-! ### Levels -/

/-- `find_level`. A map has no order of its own, so the order in which it is walked is an argument. -/
def findLevel (walk : List (SymbolAnnotations F N M)) (levelId : UInt64) :
    Option (String × StoredLevel F) :=
  walk.findSome? fun sa => sa.annotations.findSome? fun ann =>
    match ann.kind with
    | .level level => if level.id = levelId then some (sa.key, ⟨level, ann.locked⟩) else none
    | _ => none

/-- `alloc_level_id`. -/
def allocLevelId (s : AnnotationStore F N M) : AnnotationStore F N M × UInt64 :=
  (s.setNextId (s.nextId + 1), s.nextId)

/-- `add_level`. -/
def addLevel (s : AnnotationStore F N M) (symbol : String) (entry : StoredLevel F) (now : ℤ) :
    AnnotationStore F N M × UInt64 :=
  let levelId := entry.level.id
  let s := if s.nextId ≤ levelId then s.setNextId (levelId + 1) else s
  let s := s.addRaw symbolKey symbol (fresh levelId (.level entry.level) entry.locked now)
  (s.bumpGeneration (symbolKey symbol), levelId)

/-- Write over the first entry that a predicate holds of. -/
def setFirst {α : Type} (p : α → Bool) (f : α → α) : List α → List α
  | [] => []
  | a :: l => if p a then f a :: l else a :: setFirst p f l

/-- What a closure on the level and the lock makes of an annotation. -/
def changeLevel (f : HorizontalLevel F → Bool → HorizontalLevel F × Bool) (now : ℤ)
    (a : Annotation F N M) : Annotation F N M :=
  match a.kind with
  | .level level =>
    let (level, locked) := f level a.locked
    { a with kind := .level level, locked := locked, modifiedAt := now }
  | _ => a

/-- `update_level`. -/
def updateLevel (s : AnnotationStore F N M) (symbol : String) (levelId : UInt64)
    (f : HorizontalLevel F → Bool → HorizontalLevel F × Bool) (now : ℤ) :
    AnnotationStore F N M × Bool :=
  match s.bySymbol.get? (symbolKey symbol) with
  | none => (s, false)
  | some sa =>
    let isIt : Annotation F N M → Bool := fun a => a.levelId? = some levelId
    if sa.annotations.any isIt then
      let annotations := setFirst isIt (changeLevel f now) sa.annotations
      ((s.setAnnotations sa annotations).bumpGeneration (symbolKey symbol), true)
    else (s, false)

/-- The level of a row of the configuration. -/
def levelOf (id : UInt64) (cfg : LevelConfig F) : HorizontalLevel F :=
  ⟨id, ⟨cfg.price, cfg.color, cfg.lineWidth⟩, cfg.label, .fromStrId cfg.icon⟩

/-- One row of the configuration. -/
def importLevelConfig (s : AnnotationStore F N M) (symbol : String) (cfg : LevelConfig F) (now : ℤ) :
    AnnotationStore F N M × UInt64 :=
  let (s, id) := s.allocLevelId
  s.addLevel symbolKey symbol ⟨levelOf id cfg, cfg.locked⟩ now

/-- `import_level_configs`, of a map in the order in which it is walked. -/
def importLevelConfigs (s : AnnotationStore F N M) (cfgs : List (String × List (LevelConfig F)))
    (now : ℤ) : AnnotationStore F N M :=
  cfgs.foldl (fun s (symbol, levelCfgs) =>
    levelCfgs.foldl (fun s cfg => (s.importLevelConfig symbolKey symbol cfg now).1) s) s

end AnnotationStore

/-! ### Loading -/

/-- A map of files, in the order in which it is walked. -/
abbrev Files (F N M : Type) := List (String × List ( Annotation F N M))

/-- What is loaded of an annotation: brackets are normalized, and drafts that were not saved do not
    come back. -/
def loaded [F64 F] (ann : Annotation F N M) : Option ( Annotation F N M) :=
  match ann.kind with
  | .orderBracket b =>
    let b := normalizeBracket b
    if b.status = .draft ∧ b.saved = false then none else some { ann with kind := .orderBracket b }
  | _ => some ann

/-- One annotation of a file, with the largest id so far. -/
def loadOne [F64 F] (symbolKey : String → String) (symbol : String)
    (acc : AnnotationStore F N M × UInt64) (ann : Annotation F N M) : AnnotationStore F N M × UInt64 :=
  let maxId := max acc.2 ann.id
  match loaded ann with
  | none => (acc.1, maxId)
  | some ann => (acc.1.addRaw symbolKey symbol ann, maxId)

/-- `store_from_files`. -/
def storeFromFiles [F64 F] (symbolKey : String → String) (files : Files F N M) :
    AnnotationStore F N M :=
  let (store, maxId) := files.foldl (fun acc (symbol, annotations) =>
    annotations.foldl (loadOne symbolKey symbol) acc) (.new, 0)
  store.setNextId (maxId + 1)

end Midas.Annotations

/-! ### All that the store holds -/

namespace Midas.Annotations

variable {F N M : Type}

namespace AnnotationStore

/-- The annotations of all symbols. -/
def all (s : AnnotationStore F N M) : List ( Annotation F N M) :=
  s.bySymbol.items.flatMap (·.annotations)

/-- The annotations of the other symbols. -/
def rest (s : AnnotationStore F N M) (key : String) : List ( Annotation F N M) :=
  (s.bySymbol.others key).flatMap (·.annotations)

variable {s : AnnotationStore F N M} {sa : SymbolAnnotations F N M} {key : String}

theorem all_of_get? (h : s.bySymbol.get? key = some sa) :
    s.all.Perm (sa.annotations ++ s.rest key) := by
  have hperm := (Store.perm_of_get? h).flatMap_right (·.annotations)
  rwa [List.flatMap_cons] at hperm

theorem all_setAnnotations (s : AnnotationStore F N M) (sa : SymbolAnnotations F N M)
    (annotations : List ( Annotation F N M)) :
    (s.setAnnotations sa annotations).all = annotations ++ s.rest sa.key := by
  unfold setAnnotations all rest
  rw [Store.items_put, List.flatMap_cons]

theorem all_bumpGeneration (s : AnnotationStore F N M) (key : String) :
    (s.bumpGeneration key).all.Perm s.all := by
  unfold bumpGeneration all
  dsimp only
  split
  · rename_i sa h
    rw [Store.items_put, List.flatMap_cons]
    rw [Store.key_of_get? h]
    exact (all_of_get? h).symm
  · exact .refl _

theorem all_addRaw (symbolKey : String → String) (s : AnnotationStore F N M) (symbol : String)
    (a : Annotation F N M) : (s.addRaw symbolKey symbol a).all.Perm (a :: s.all) := by
  unfold addRaw all
  dsimp only
  rw [Store.items_put, List.flatMap_cons]
  dsimp only
  cases h : s.bySymbol.get? (symbolKey symbol) with
  | none =>
    rw [Option.getD_none, List.nil_append, Store.others_of_get? h]
    exact .refl _
  | some sa =>
    rw [Option.getD_some, List.append_assoc]
    exact List.perm_middle.trans ((all_of_get? h).symm.cons a)

/-! ### Taking out -/

theorem subperm_setAnnotations (h : s.bySymbol.get? key = some sa)
    {annotations : List ( Annotation F N M)} (hsub : annotations.Sublist sa.annotations) :
    (s.setAnnotations sa annotations).all.Subperm s.all := by
  rw [all_setAnnotations, Store.key_of_get? h]
  exact ((hsub.append_right _).subperm).trans (all_of_get? h).symm.subperm

variable (symbolKey : String → String)

theorem subperm_removeFirst (s : AnnotationStore F N M) (symbol : String)
    (p : Annotation F N M → Bool) : (s.removeFirst symbolKey symbol p).1.all.Subperm s.all := by
  unfold removeFirst
  split
  · exact .refl _
  · rename_i sa h
    split
    · exact (all_bumpGeneration _ _).subperm.trans (subperm_setAnnotations h List.eraseP_sublist)
    · exact .refl _

theorem subperm_clear (s : AnnotationStore F N M) (symbol : String) :
    (s.clear symbolKey symbol).all.Subperm s.all := by
  unfold clear
  split
  · exact .refl _
  · rename_i sa h
    split
    · exact .refl _
    · exact (all_bumpGeneration _ _).subperm.trans (subperm_setAnnotations h (List.nil_sublist _))

theorem subperm_retain (s : AnnotationStore F N M) (symbol : String)
    (pred : Annotation F N M → Bool) : (s.retain symbolKey symbol pred).1.all.Subperm s.all := by
  unfold retain
  split
  · exact .refl _
  · rename_i sa h
    have hsub := subperm_setAnnotations h (List.filter_sublist (p := pred))
    dsimp only
    split
    · exact (all_bumpGeneration _ _).subperm.trans hsub
    · exact hsub

/-! ### The counter -/

theorem nextId_removeFirst (s : AnnotationStore F N M) (symbol : String)
    (p : Annotation F N M → Bool) : (s.removeFirst symbolKey symbol p).1.nextId = s.nextId := by
  unfold removeFirst
  split
  · rfl
  · split <;> rfl

theorem nextId_clear (s : AnnotationStore F N M) (symbol : String) :
    (s.clear symbolKey symbol).nextId = s.nextId := by
  unfold clear
  split
  · rfl
  · split <;> rfl

theorem nextId_retain (s : AnnotationStore F N M) (symbol : String)
    (pred : Annotation F N M → Bool) : (s.retain symbolKey symbol pred).1.nextId = s.nextId := by
  unfold retain
  split
  · rfl
  · dsimp only
    split <;> rfl

/-! ### One symbol -/

theorem get_bumpGeneration (s : AnnotationStore F N M) (key symbol : String) :
    (s.bumpGeneration key).get symbolKey symbol = s.get symbolKey symbol := by
  unfold bumpGeneration get
  dsimp only
  split
  · rename_i sa h
    rw [Store.get?_put]
    split
    · rename_i hkey
      rw [hkey, Store.key_of_get? h, h]
      rfl
    · rfl
  · rfl

theorem get_setAnnotations (h : s.bySymbol.get? key = some sa)
    (annotations : List ( Annotation F N M)) (symbol : String) :
    (s.setAnnotations sa annotations).get symbolKey symbol =
      if symbolKey symbol = key then annotations else s.get symbolKey symbol := by
  unfold setAnnotations get
  dsimp only
  rw [Store.get?_put, Store.key_of_get? h]
  split <;> rfl

end AnnotationStore

end Midas.Annotations
