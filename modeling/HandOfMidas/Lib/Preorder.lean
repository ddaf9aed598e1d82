import Mathlib.Data.List.Basic
import Mathlib.Data.List.Count
import Mathlib.Data.List.Pairwise
import Mathlib.Data.List.Infix

/-! Binary trees stored as the list of their nodes in pre-order. A tree has one leaf more than it has
    inner nodes, so the nodes of a tree make one no longer when leaves are taken out of them, but for
    a tree of a single leaf.

    A reader that goes on when the list is at its end, and puts a leaf of its own there, reads a tree
    off any list. Off the nodes of a tree it reads the tree, and what it reads off the nodes that are
    left when leaves are taken out differs from the tree unless nothing follows them. -/

namespace Midas.Preorder

variable {α : Type*} (inner : α → Bool)

/-- The nodes of a tree in pre-order: an inner node is followed by the nodes of its two subtrees. -/
inductive IsTree : List α → Prop where
  | leaf (a : α) (h : inner a = false) : IsTree [a]
  | inner (a : α) (l r : List α) (h : inner a = true) (hl : IsTree l) (hr : IsTree r) :
      IsTree (a :: (l ++ r))

variable {inner}

/-- One leaf more than inner nodes. -/
theorem IsTree.countP_leaf {l : List α} (h : IsTree inner l) :
    l.countP (fun a => !inner a) = l.countP inner + 1 := by
  induction h with
  | leaf a h => simp [h]
  | inner a l r h _ _ ihl ihr =>
    simp only [List.countP_cons, List.countP_append, h, Bool.not_true, ihl, ihr]
    simp
    omega

/-- A map that keeps what is inner keeps trees. -/
theorem IsTree.map {l : List α} (h : IsTree inner l) {f : α → α} (hf : ∀ a, inner (f a) = inner a) :
    IsTree inner (l.map f) := by
  induction h with
  | leaf a h => exact .leaf (f a) ((hf a).trans h)
  | inner a l r h _ _ ihl ihr =>
    rw [List.map_cons, List.map_append]
    exact .inner (f a) _ _ ((hf a).trans h) ihl ihr

/-- A tree without inner nodes is a single leaf. -/
theorem IsTree.eq_singleton {l : List α} (h : IsTree inner l) (hl : ∀ a ∈ l, inner a = false) :
    ∃ a, l = [a] := by
  cases h with
  | leaf a _ => exact ⟨a, rfl⟩
  | inner a l r h _ _ =>
    rw [hl a List.mem_cons_self] at h
    cases h

/-- Leaves taken out of a tree leave a tree, or nothing, when it has no inner node or when none is
    taken out. -/
theorem IsTree.filter_iff {l : List α} (h : IsTree inner l) {p : α → Bool}
    (hp : ∀ a, inner a = true → p a = true) :
    l.filter p = [] ∨ IsTree inner (l.filter p) ↔
      (∀ a ∈ l, inner a = false) ∨ ∀ a ∈ l, p a = true := by
  constructor
  · rintro (hnil | htree)
    · refine .inl fun a ha => ?_
      have hpa := List.filter_eq_nil_iff.mp hnil a ha
      exact Bool.eq_false_iff.mpr fun hi => hpa (hp a hi)
    · refine .inr fun a ha => ?_
      have hinner : (l.filter p).countP inner = l.countP inner := by
        rw [List.countP_filter]
        refine List.countP_congr fun b _ => ?_
        simpa using hp b
      have hleaves : (l.filter p).countP (fun b => !inner b) = l.countP (fun b => !inner b) := by
        rw [htree.countP_leaf, h.countP_leaf, hinner]
      have hsplit := List.countP_eq_countP_filter_add l (fun b => !inner b) p
      have hnone : (l.filter fun b => !p b).countP (fun b => !inner b) = 0 := by omega
      by_contra hpa
      have hmem : a ∈ l.filter fun b => !p b := List.mem_filter.mpr ⟨ha, by simpa using hpa⟩
      have hia := List.countP_eq_zero.mp hnone a hmem
      exact hpa (hp a (by simpa using hia))
  · rintro (hleaf | hall)
    · obtain ⟨a, rfl⟩ := h.eq_singleton hleaf
      cases hpa : p a with
      | true => exact .inr (by simpa [hpa] using h)
      | false => exact .inl (by simp [hpa])
    · rw [List.filter_eq_self.mpr hall]
      exact .inr h

/-- A chain: every leaf but the last one follows an inner node of its own. -/
def chain (node : α) : List α → List α
  | [] => []
  | [a] => [a]
  | a :: b :: l => node :: a :: chain node (b :: l)

theorem mem_chain {node a : α} : ∀ {l : List α}, a ∈ chain node l → a = node ∨ a ∈ l
  | [], h => .inr h
  | [_], h => .inr h
  | b :: c :: l, h => by
    rcases List.mem_cons.mp h with rfl | h
    · exact .inl rfl
    rcases List.mem_cons.mp h with rfl | h
    · exact .inr List.mem_cons_self
    exact (mem_chain h).imp_right (List.mem_cons_of_mem b)

theorem leaves_chain {node : α} (hnode : inner node = true) :
    ∀ {l : List α}, (∀ a ∈ l, inner a = false) → (chain node l).filter (fun a => !inner a) = l
  | [], _ => rfl
  | [a], h => by simp [chain, h a List.mem_cons_self]
  | a :: b :: l, h => by
    have hrest := leaves_chain hnode (l := b :: l) fun c hc => h c (List.mem_cons_of_mem a hc)
    rw [chain, List.filter_cons_of_neg (by simp [hnode]),
      List.filter_cons_of_pos (by simp [h a List.mem_cons_self]), hrest]

theorem isTree_chain {node : α} (hnode : inner node = true) :
    ∀ {l : List α}, (∀ a ∈ l, inner a = false) → chain node l = [] ∨ IsTree inner (chain node l)
  | [], _ => .inl rfl
  | [a], h => .inr (.leaf a (h a List.mem_cons_self))
  | a :: b :: l, h => by
    have ha : IsTree inner [a] := .leaf a (h a List.mem_cons_self)
    rcases isTree_chain hnode (l := b :: l) fun c hc => h c (List.mem_cons_of_mem a hc) with hr | hr
    · cases l <;> simp [chain] at hr
    · exact .inr (.inner node [a] _ hnode ha hr)

/-! ### What is left out, made up for at the end -/

section
variable {β γ : Type*} {f : β → Option γ} {e : γ}

/-- Elements that come in too early by `k` of the `e` stand right only if all of them are `e`. -/
theorem getD_of_shifted {l : List β} {k : ℕ} (hk : 0 < k)
    (h : l.filterMap f ++ List.replicate (l.countP (fun x => (f x).isNone) + k) e =
      List.replicate k e ++ l.map fun x => (f x).getD e) : ∀ x ∈ l, (f x).getD e = e := by
  induction l generalizing k with
  | nil => simp
  | cons x l ih =>
    cases hx : f x with
    | none =>
      have hrest : ∀ y ∈ l, (f y).getD e = e := by
        refine ih (k := k + 1) (Nat.succ_pos k) ?_
        rw [List.filterMap_cons_none hx, List.countP_cons_of_pos (by simp [hx]), Nat.add_right_comm,
          Nat.add_assoc] at h
        rw [h, List.map_cons, hx, Option.getD_none, List.replicate_succ', List.append_assoc,
          List.singleton_append]
      simpa [hx] using hrest
    | some c =>
      obtain ⟨k, rfl⟩ := Nat.exists_eq_succ_of_ne_zero hk.ne'
      rw [List.filterMap_cons_some hx, List.countP_cons_of_neg (by simp [hx]), List.map_cons, hx,
        Option.getD_some, List.replicate_succ, List.cons_append, List.cons_append,
        List.cons.injEq] at h
      obtain ⟨rfl, h⟩ := h
      have hrest : ∀ y ∈ l, (f y).getD c = c := by
        refine ih (k := k + 1) (Nat.succ_pos k) ?_
        rw [List.replicate_succ', List.append_assoc, List.singleton_append]
        exact h
      simpa [hx] using hrest

theorem filterMap_of_getD {l : List β} (h : ∀ x ∈ l, (f x).getD e = e) :
    l.filterMap f ++ List.replicate (l.countP fun x => (f x).isNone) e =
      l.map fun x => (f x).getD e := by
  induction l with
  | nil => rfl
  | cons x l ih =>
    have hrest := ih fun y hy => h y (List.mem_cons_of_mem x hy)
    cases hx : f x with
    | none =>
      have hall : l.map (fun y => (f y).getD e) = List.replicate l.length e :=
        List.eq_replicate_iff.mpr ⟨by simp, by simpa using fun y hy => h y (List.mem_cons_of_mem x hy)⟩
      rw [List.filterMap_cons_none hx, List.countP_cons_of_pos (by simp [hx]), List.map_cons, hx,
        List.replicate_succ', ← List.append_assoc, hrest, hall, ← List.replicate_succ',
        List.replicate_succ]
      rfl
    | some c =>
      rw [List.filterMap_cons_some hx, List.countP_cons_of_neg (by simp [hx]), List.map_cons, hx,
        List.cons_append, hrest]
      rfl

/-- Leaving elements out and making up for them at the end by as many `e` is the same as an `e` in
    the place of each, exactly when nothing but `e` comes after the first of them. -/
theorem filterMap_append_replicate_iff (l : List β) :
    l.filterMap f ++ List.replicate (l.countP fun x => (f x).isNone) e =
        (l.map fun x => (f x).getD e) ↔
      l.Pairwise fun x y => f x = none → (f y).getD e = e := by
  induction l with
  | nil => simp
  | cons x l ih =>
    rw [List.pairwise_cons]
    cases hx : f x with
    | none =>
      rw [List.filterMap_cons_none hx, List.countP_cons_of_pos (by simp [hx]), List.map_cons, hx]
      constructor
      · intro h
        have hall : ∀ y ∈ l, (f y).getD e = e := getD_of_shifted Nat.one_pos h
        exact ⟨fun y hy _ => hall y hy,
          List.pairwise_of_forall_mem_list fun _ _ y hy _ => hall y hy⟩
      · rintro ⟨hall, -⟩
        have hcons : ∀ y ∈ x :: l, (f y).getD e = e := by
          simpa [hx] using fun y hy => hall y hy rfl
        have hwhole := filterMap_of_getD hcons
        rwa [List.filterMap_cons_none hx, List.countP_cons_of_pos (by simp [hx]), List.map_cons,
          hx] at hwhole
    | some c =>
      rw [List.filterMap_cons_some hx, List.countP_cons_of_neg (by simp [hx]), List.map_cons, hx,
        List.cons_append, Option.getD_some, List.cons.injEq, ih]
      simp

end

/-! ### Trees, and reading them back -/

/-- A binary tree with labels at its inner nodes and at its leaves. -/
inductive Tree (ν α : Type*) where
  | leaf (a : α)
  | node (n : ν) (l r : Tree ν α)
  deriving DecidableEq

namespace Tree

variable {ν α β : Type*}

/-- The nodes in pre-order. -/
def nodes : Tree ν α → List (ν ⊕ α)
  | leaf a => [.inr a]
  | node n l r => .inl n :: (l.nodes ++ r.nodes)

/-- The leaves from left to right. -/
def leaves : Tree ν α → List α
  | leaf a => [a]
  | node _ l r => l.leaves ++ r.leaves

def map (f : α → β) : Tree ν α → Tree ν β
  | leaf a => leaf (f a)
  | node n l r => node n (l.map f) (r.map f)

theorem nodes_map (f : α → β) (t : Tree ν α) : (t.map f).nodes = t.nodes.map (Sum.map id f) := by
  induction t with
  | leaf a => rfl
  | node n l r ihl ihr => simp [map, nodes, ihl, ihr]

theorem leaves_map (f : α → β) (t : Tree ν α) : (t.map f).leaves = t.leaves.map f := by
  induction t with
  | leaf a => rfl
  | node n l r ihl ihr => simp [map, leaves, ihl, ihr]

theorem map_congr {f g : α → β} {t : Tree ν α} (h : ∀ a ∈ t.leaves, f a = g a) :
    t.map f = t.map g := by
  induction t with
  | leaf a => rw [map, map, h a (by simp [leaves])]
  | node n l r ihl ihr =>
    rw [map, map, ihl fun a ha => h a (by simp [leaves, ha]),
      ihr fun a ha => h a (by simp [leaves, ha])]

/-- Two maps give the same tree exactly when they agree at the leaves. -/
theorem map_eq_map_iff {f g : α → β} {t : Tree ν α} :
    t.map f = t.map g ↔ ∀ a ∈ t.leaves, f a = g a := by
  refine ⟨fun h => ?_, map_congr⟩
  have hleaves := congrArg leaves h
  rwa [leaves_map, leaves_map, List.map_inj_left] at hleaves

theorem map_map {γ : Type*} (f : α → β) (g : β → γ) (t : Tree ν α) :
    (t.map f).map g = t.map (g ∘ f) := by
  induction t with
  | leaf a => rfl
  | node n l r ihl ihr => simp [map, ihl, ihr]

theorem mem_nodes_inr {t : Tree ν α} {a : α} : .inr a ∈ t.nodes ↔ a ∈ t.leaves := by
  induction t with
  | leaf b => simp [nodes, leaves]
  | node n l r ihl ihr => simp [nodes, leaves, ihl, ihr]

theorem leaves_ne_nil (t : Tree ν α) : t.leaves ≠ [] := by
  induction t with
  | leaf a => simp [leaves]
  | node n l r ihl _ => simp [leaves, ihl]

theorem isTree_nodes (t : Tree ν α) : IsTree Sum.isLeft t.nodes := by
  induction t with
  | leaf a => exact .leaf _ rfl
  | node n l r ihl ihr => exact .inner _ _ _ rfl ihl ihr

/-- The nodes tell the tree, and where it ends. -/
theorem nodes_append_inj {t t' : Tree ν α} {r r' : List (ν ⊕ α)}
    (h : t.nodes ++ r = t'.nodes ++ r') : t = t' ∧ r = r' := by
  induction t generalizing t' r r' with
  | leaf a =>
    cases t' with
    | leaf b =>
      simp only [nodes, List.singleton_append, List.cons.injEq, Sum.inr.injEq] at h
      exact ⟨congrArg leaf h.1, h.2⟩
    | node n l' r₁ => simp [nodes] at h
  | node n l r₁ ihl ihr =>
    cases t' with
    | leaf b => simp [nodes] at h
    | node n' l' r₁' =>
      simp only [nodes, List.cons_append, List.append_assoc, List.cons.injEq, Sum.inl.injEq] at h
      obtain ⟨rfl, hboth⟩ := h
      obtain ⟨rfl, hright⟩ := ihl hboth
      obtain ⟨rfl, hrest⟩ := ihr hright
      exact ⟨rfl, hrest⟩

theorem nodes_inj {t t' : Tree ν α} : t.nodes = t'.nodes ↔ t = t' := by
  refine ⟨fun h => ?_, congrArg nodes⟩
  have hnil : t.nodes ++ [] = t'.nodes ++ [] := by rw [h]
  exact (nodes_append_inj hnil).1

theorem countP_isRight (t : Tree ν α) :
    t.nodes.countP Sum.isRight = t.nodes.countP Sum.isLeft + 1 := by
  rw [← t.isTree_nodes.countP_leaf]
  exact List.countP_congr fun a _ => by cases a <;> simp

/-- Before a tree is at its end no more leaves than inner nodes have been seen. -/
theorem countP_isRight_le_of_append {t : Tree ν α} {p q : List (ν ⊕ α)} (h : p ++ q = t.nodes)
    (hq : q ≠ []) : p.countP Sum.isRight ≤ p.countP Sum.isLeft := by
  induction t generalizing p q with
  | leaf a =>
    cases p with
    | nil => simp
    | cons b p => simp [nodes, hq] at h
  | node n l r ihl ihr =>
    cases p with
    | nil => simp
    | cons b p =>
      simp only [nodes, List.cons_append, List.cons.injEq] at h
      obtain ⟨rfl, h⟩ := h
      rcases List.append_eq_append_iff.mp h with ⟨q', hl, -⟩ | ⟨p', rfl, hr⟩
      · rcases eq_or_ne q' [] with rfl | hq'
        · -- the first subtree is all there is
          have hleaves := l.countP_isRight
          rw [← List.append_nil p, ← hl]
          simp [hleaves, List.countP_cons]
        · have hle := ihl hl.symm hq'
          simp only [List.countP_cons, Sum.isRight_inl, Sum.isLeft_inl]
          simp only [Bool.false_eq_true, if_false, if_true]
          omega
      · have hle := ihr hr.symm hq
        have hleaves := l.countP_isRight
        simp only [List.countP_cons, List.countP_append, Sum.isRight_inl, Sum.isLeft_inl]
        simp only [Bool.false_eq_true, if_false, if_true]
        omega

/-- Reads one tree, at a depth of less than `fuel`. At the end of the list it puts the leaf `pad`. -/
def readBack (pad : α) : ℕ → List (ν ⊕ α) → Tree ν α × List (ν ⊕ α)
  | 0, l => (leaf pad, l)
  | _ + 1, [] => (leaf pad, [])
  | _ + 1, .inr a :: l => (leaf a, l)
  | fuel + 1, .inl n :: l =>
    let (left, l) := readBack pad fuel l
    let (right, l) := readBack pad fuel l
    (node n left right, l)

/-- What is read is what is there, with some pads after it once the list is at its end. -/
theorem readBack_spec (pad : α) {fuel : ℕ} {l : List (ν ⊕ α)} (hfuel : l.length < fuel) :
    ∃ k, (readBack pad fuel l).1.nodes ++ (readBack pad fuel l).2
        = l ++ List.replicate k (.inr pad) ∧ (k = 0 ∨ (readBack pad fuel l).2 = []) := by
  induction fuel generalizing l with
  | zero => omega
  | succ fuel ih =>
    rcases l with _ | ⟨n | a, l⟩
    · exact ⟨1, rfl, .inr rfl⟩
    · rw [List.length_cons] at hfuel
      obtain ⟨k, hleft, hk⟩ := ih (l := l) (by omega)
      have hshort : (readBack pad fuel l).2.length < fuel := by
        rcases hk with rfl | hnil
        · have hlen := congrArg List.length hleft
          simp only [List.length_append, List.replicate_zero, List.length_nil] at hlen
          omega
        · rw [hnil, List.length_nil]
          omega
      obtain ⟨k', hright, hk'⟩ := ih hshort
      refine ⟨k + k', ?_, ?_⟩
      · simp only [readBack, nodes, List.cons_append, List.append_assoc, hright]
        rw [← List.append_assoc, hleft, List.append_assoc, List.replicate_append_replicate]
      · rcases hk' with rfl | hnil
        · rcases hk with rfl | hnil
          · exact .inl rfl
          · refine .inr ?_
            rw [hnil] at hright
            have hend := List.append_eq_nil_iff.mp (hright.trans (by simp))
            simpa [readBack, hnil] using hend.2
        · exact .inr (by simpa [readBack] using hnil)
    · exact ⟨0, by simp [readBack, nodes], .inl rfl⟩

/-- A node of a tree some leaves of which are missing. -/
def kept : ν ⊕ Option α → Option (ν ⊕ α)
  | .inl n => some (.inl n)
  | .inr a => a.map .inr

@[simp] theorem kept_inl (n : ν) : kept (.inl n : ν ⊕ Option α) = some (.inl n) := rfl
@[simp] theorem kept_none : kept (.inr none : ν ⊕ Option α) = none := rfl
@[simp] theorem kept_some (a : α) : kept (.inr (some a) : ν ⊕ Option α) = some (.inr a) := rfl

theorem filterMap_kept_nodes (t : Tree ν α) : (t.map some).nodes.filterMap kept = t.nodes := by
  induction t with
  | leaf a => rfl
  | node n l r ihl ihr => simp [map, nodes, ihl, ihr]

theorem countP_isLeft_kept (l : List (ν ⊕ Option α)) :
    (l.filterMap kept).countP Sum.isLeft = l.countP Sum.isLeft := by
  induction l with
  | nil => rfl
  | cons x l ih => rcases x with n | _ | a <;> simp [List.filterMap_cons, List.countP_cons, ih]

theorem countP_isRight_kept (l : List (ν ⊕ Option α)) :
    (l.filterMap kept).countP Sum.isRight + l.countP (fun x => (kept x).isNone) =
      l.countP Sum.isRight := by
  induction l with
  | nil => rfl
  | cons x l ih =>
    rw [List.countP_cons, List.countP_cons, List.filterMap_cons]
    rcases x with n | _ | a <;> simp [List.countP_cons] <;> omega

/-- Off the nodes that are kept a tree is read with as many pads at its end as leaves are missing. -/
theorem readBack_kept (pad : α) (t : Tree ν (Option α)) {fuel : ℕ}
    (hfuel : (t.nodes.filterMap kept).length < fuel) :
    (readBack pad fuel (t.nodes.filterMap kept)).2 = [] ∧
      (readBack pad fuel (t.nodes.filterMap kept)).1.nodes = t.nodes.filterMap kept
        ++ List.replicate (t.nodes.countP fun x => (kept x).isNone) (.inr pad) := by
  obtain ⟨k, hread, hk⟩ := readBack_spec pad hfuel
  generalize readBack pad fuel (t.nodes.filterMap kept) = out at hread hk
  obtain ⟨u, rest⟩ := out
  have hu := u.countP_isRight
  have hrest : rest = [] := by
    by_contra hne
    obtain rfl := hk.resolve_right hne
    rw [List.replicate_zero, List.append_nil] at hread
    obtain ⟨p, q, ht, hp, hq⟩ := List.filterMap_eq_append_iff.mp hread.symm
    have hqne : q ≠ [] := by
      rintro rfl
      exact hne hq.symm
    have hle := countP_isRight_le_of_append ht.symm hqne
    have hleft := countP_isLeft_kept p
    have hright := countP_isRight_kept p
    rw [hp] at hleft hright
    dsimp only at hleft hright
    omega
  subst hrest
  rw [List.append_nil] at hread
  refine ⟨rfl, ?_⟩
  have hleft := countP_isLeft_kept t.nodes
  have hright := countP_isRight_kept t.nodes
  have ht := t.countP_isRight
  rw [hread, List.countP_append, List.countP_append, List.countP_replicate,
    List.countP_replicate] at hu
  simp only [Sum.isRight_inr, Sum.isLeft_inr, if_true, Bool.false_eq_true, if_false] at hu
  have hcount : k = t.nodes.countP fun x => (kept x).isNone := by omega
  rw [hread, hcount]

/-- A tree with missing leaves is read back with pads in their places exactly when nothing but pads
    comes after the first of them. -/
theorem readBack_kept_iff (pad : α) (t : Tree ν (Option α)) {fuel : ℕ}
    (hfuel : (t.nodes.filterMap kept).length < fuel) :
    (readBack pad fuel (t.nodes.filterMap kept)).1 = t.map (·.getD pad) ↔
      t.nodes.Pairwise fun x y => kept x = none → (kept y).getD (.inr pad) = .inr pad := by
  have hfill : (fun x : ν ⊕ Option α => (kept x).getD (.inr pad)) = Sum.map id (·.getD pad) := by
    funext x
    rcases x with n | _ | a <;> rfl
  rw [← nodes_inj, (readBack_kept pad t hfuel).2, nodes_map, ← hfill]
  exact filterMap_append_replicate_iff _

/-- A tree without missing leaves is read back. -/
theorem readBack_nodes (pad : α) (t : Tree ν α) {fuel : ℕ} (hfuel : t.nodes.length < fuel) :
    readBack pad fuel t.nodes = (t, []) := by
  obtain ⟨k, hread, hk⟩ := readBack_spec pad hfuel
  rcases hk with rfl | hnil
  · rw [List.replicate_zero] at hread
    obtain ⟨htree, hrest⟩ := nodes_append_inj hread
    exact Prod.ext htree hrest
  · rw [hnil, List.append_nil] at hread
    have hread' : (readBack pad fuel t.nodes).1.nodes ++ [] =
        t.nodes ++ List.replicate k (.inr pad) := by
      rw [List.append_nil, hread]
    obtain ⟨htree, -⟩ := nodes_append_inj hread'
    exact Prod.ext htree hnil

end Tree

end Midas.Preorder
