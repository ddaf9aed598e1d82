import HandOfMidas.Annotations.Store
import HandOfMidas.Lib.Run

/-! Ids of annotations and of levels. The counter starts behind the largest annotation id of the files,
    and ids that levels carry inside are not looked at; so ids stay unique as long as the counter
    meets none of them. -/

namespace Midas.Annotations

open Ticker

variable {F N M : Type}

/-! ### What is in the files -/

namespace Files

def all (files : Files F N M) : List ( Annotation F N M) := files.flatMap (·.2)

def ids (files : Files F N M) : List UInt64 := files.all.map (·.id)

def levelIds (files : Files F N M) : List UInt64 := files.all.filterMap (·.levelId?)

end Files

section
variable [F64 F]

/-- What is loaded keeps its id and the id of its level. -/
theorem loaded_ids {ann ann' : Annotation F N M} (h : loaded ann = some ann') :
    ann'.id = ann.id ∧ ann'.levelId? = ann.levelId? := by
  unfold loaded at h
  split at h
  · rename_i b hb
    dsimp only at h
    split at h
    · cases h
    · obtain rfl := Option.some.inj h
      exact ⟨rfl, by simp [ Annotation.levelId?, AnnotationKind.level?, hb]⟩
  · obtain rfl := Option.some.inj h
    exact ⟨rfl, rfl⟩

/-- Only brackets are left behind. -/
theorem levelId?_of_not_loaded {ann : Annotation F N M} (h : loaded ann = none) :
    ann.levelId? = none := by
  unfold loaded at h
  split at h
  · rename_i b hb
    simp [ Annotation.levelId?, AnnotationKind.level?, hb]
  · cases h

theorem filterMap_loaded_levelIds (l : List ( Annotation F N M)) :
    (l.filterMap loaded).filterMap (·.levelId?) = l.filterMap (·.levelId?) := by
  rw [List.filterMap_filterMap]
  refine List.filterMap_congr fun a _ => ?_
  cases h : loaded a with
  | none => rw [levelId?_of_not_loaded h]; rfl
  | some b => exact (loaded_ids h).2

theorem ids_filterMap_loaded (l : List ( Annotation F N M)) :
    ((l.filterMap loaded).map (·.id)).Sublist (l.map (·.id)) := by
  induction l with
  | nil => exact .refl _
  | cons a l ih =>
    cases h : loaded a with
    | none => rw [List.filterMap_cons_none h]; exact ih.cons _
    | some b =>
      rw [List.filterMap_cons_some h, List.map_cons, List.map_cons, (loaded_ids h).1]
      exact ih.cons_cons _

/-- What loading has put into the store, and the largest id it has seen. -/
structure Loads (acc acc' : AnnotationStore F N M × UInt64) (l : List ( Annotation F N M)) : Prop where
  all : acc'.1.all.Perm (l.filterMap loaded ++ acc.1.all)
  grows : acc.2 ≤ acc'.2
  largest : ∀ a ∈ l, a.id ≤ acc'.2
  seen : acc'.2 = acc.2 ∨ ∃ a ∈ l, a.id = acc'.2

theorem Loads.append {acc acc' acc'' : AnnotationStore F N M × UInt64}
    {l l' : List ( Annotation F N M)} (h : Loads acc acc' l) (h' : Loads acc' acc'' l') :
    Loads acc acc'' (l ++ l') := by
  refine ⟨?_, UInt64.le_trans h.grows h'.grows, fun a ha => ?_, ?_⟩
  · rw [List.filterMap_append]
    refine h'.all.trans ((h.all.append_left _).trans ?_)
    rw [← List.append_assoc]
    exact List.perm_append_comm.append_right _
  · rcases List.mem_append.mp ha with ha | ha
    · exact UInt64.le_trans (h.largest a ha) h'.grows
    · exact h'.largest a ha
  · rcases h'.seen with heq | ⟨a, ha, heq⟩
    · rw [heq]
      exact h.seen.imp_right fun ⟨a, ha, hid⟩ => ⟨a, List.mem_append_left _ ha, hid⟩
    · exact .inr ⟨a, List.mem_append_right _ ha, heq⟩

theorem loads_nil (acc : AnnotationStore F N M × UInt64) : Loads acc acc [] where
  all := List.Perm.refl _
  grows := UInt64.le_refl _
  largest _ ha := absurd ha List.not_mem_nil
  seen := .inl rfl

/-- The larger one of two ids. -/
theorem max_spec (x y : UInt64) : x ≤ max x y ∧ y ≤ max x y ∧ (max x y = x ∨ y = max x y) := by
  change x ≤ (if x ≤ y then y else x) ∧ y ≤ (if x ≤ y then y else x) ∧
    ((if x ≤ y then y else x) = x ∨ y = if x ≤ y then y else x)
  split
  · rename_i h
    exact ⟨h, UInt64.le_refl y, .inr rfl⟩
  · rename_i h
    exact ⟨UInt64.le_refl x, UInt64.le_of_lt (UInt64.not_le.mp h), .inl rfl⟩

theorem loads_loadOne (symbolKey : String → String) (symbol : String)
    (acc : AnnotationStore F N M × UInt64) (ann : Annotation F N M) :
    Loads acc (loadOne symbolKey symbol acc ann) [ann] := by
  obtain ⟨hgrows, hlargest, hseen⟩ := max_spec acc.2 ann.id
  have hlargest' : ∀ a ∈ [ann], a.id ≤ max acc.2 ann.id := by
    intro a ha
    rwa [List.mem_singleton.mp ha]
  have hseen' : max acc.2 ann.id = acc.2 ∨ ∃ a ∈ [ann], a.id = max acc.2 ann.id :=
    hseen.imp_right fun heq => ⟨ann, List.mem_singleton_self ann, heq⟩
  unfold loadOne
  dsimp only
  split
  · rename_i h
    refine ⟨?_, hgrows, hlargest', hseen'⟩
    rw [List.filterMap_cons_none h]
    exact .refl _
  · rename_i ann' h
    refine ⟨?_, hgrows, hlargest', hseen'⟩
    rw [List.filterMap_cons_some h]
    exact AnnotationStore.all_addRaw symbolKey _ _ _

theorem loads_file (symbolKey : String → String) (symbol : String) (l : List ( Annotation F N M))
    (acc : AnnotationStore F N M × UInt64) :
    Loads acc (l.foldl (loadOne symbolKey symbol) acc) l := by
  induction l generalizing acc with
  | nil => exact loads_nil acc
  | cons a l ih => exact (loads_loadOne symbolKey symbol acc a).append (ih _)

theorem loads_files (symbolKey : String → String) (files : Files F N M)
    (acc : AnnotationStore F N M × UInt64) :
    Loads acc (files.foldl (fun acc (symbol, annotations) =>
      annotations.foldl (loadOne symbolKey symbol) acc) acc) files.all := by
  induction files generalizing acc with
  | nil => exact loads_nil acc
  | cons file files ih =>
    exact (loads_file symbolKey file.1 file.2 acc).append (ih _)

/-- The store of the files: all that is loaded, and a counter behind every annotation id. -/
theorem storeFromFiles_spec (symbolKey : String → String) (files : Files F N M)
    (hfits : ∀ id ∈ files.ids, id.toNat + 1 < 2 ^ 64) :
    (storeFromFiles symbolKey files).all.Perm (files.all.filterMap loaded) ∧
      ∀ id ∈ files.ids, id.toNat < (storeFromFiles symbolKey files).nextId.toNat := by
  have hloads := loads_files symbolKey files (.new, 0)
  unfold storeFromFiles
  set acc := files.foldl (fun acc (symbol, annotations) =>
    annotations.foldl (loadOne symbolKey symbol) acc) (AnnotationStore.new, 0)
  refine ⟨hloads.all.trans (.of_eq (List.append_nil _)), fun id hid => ?_⟩
  obtain ⟨a, ha, rfl⟩ := List.mem_map.mp hid
  have hle := UInt64.le_iff_toNat_le.mp (hloads.largest a ha)
  have hmax : acc.2.toNat + 1 < 2 ^ 64 := by
    rcases hloads.seen with heq | ⟨b, hb, heq⟩
    · rw [heq]
      change (0 : UInt64).toNat + 1 < 2 ^ 64
      decide
    · rw [← heq]
      exact hfits _ (List.mem_map_of_mem hb)
  change a.id.toNat < (acc.2 + 1).toNat
  rw [UInt64.toNat_add, UInt64.toNat_one, Nat.mod_eq_of_lt hmax]
  omega

end

end Midas.Annotations
