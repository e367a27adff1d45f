import Mathlib.Logic.Relation
import PluginRegistry.Proofs.Store

/-!
# Subtrees

`Store.subtree` lists in preorder what is below some roots (`subtree_eq`). In a store in which
every child has a later id than its parent the depth limit of the walk is never met, so the
subtree has exactly the ids that lead down from the roots (`mem_subtree_iff`).
-/

namespace PluginRegistry.Store

variable {s s' : Store}

/-! ## The order of a walk -/

/-- An id and what is at most `depth` below it, each before its children. -/
def preorder (s : Store) : (depth : Nat) → ObjectId → List ObjectId
  | 0, id => [id]
  | depth + 1, id => id :: (s.elementChildren id).flatMap (s.preorder depth)

theorem toList_walk (s : Store) (stack : List (Nat × ObjectId)) (visited : Array ObjectId) :
    (s.walk stack visited).toList =
      visited.toList ++ stack.flatMap fun entry => s.preorder entry.1 entry.2 := by
  induction stack, visited using walk.induct s with
  | case1 visited => simp [walk]
  | case2 visited id rest ih =>
    rw [walk, ih]
    simp [preorder]
  | case3 visited depth id rest ih =>
    rw [walk, ih]
    simp [preorder, List.flatMap_map]

theorem subtree_eq (s : Store) (roots : List ObjectId) :
    s.subtree roots = roots.flatMap (s.preorder s.nextId) := by
  rw [subtree, toList_walk]
  simp [List.flatMap_map, nextId]

/-! ## What is below -/

def IsChild (s : Store) (id child : ObjectId) : Prop := child ∈ s.elementChildren id

/-- From one of the roots children lead down to `x`; a root is below itself. -/
def Below (s : Store) (roots : List ObjectId) (x : ObjectId) : Prop :=
  ∃ root ∈ roots, Relation.ReflTransGen s.IsChild root x

theorem mem_elementChildren_iff {id child : ObjectId} :
    child ∈ s.elementChildren id ↔ ∃ e, s.element? id = some e ∧ child ∈ e.children := by
  unfold elementChildren
  cases s.element? id with
  | none => simp
  | some e => simp

theorem IsChild.index_lt {id child : ObjectId} (h : s.IsChild id child) : id.index < s.nextId := by
  obtain ⟨e, he, -⟩ := mem_elementChildren_iff.1 h
  exact index_lt_of_object? (element?_eq_some_iff.1 he)

theorem below_of_mem {roots : List ObjectId} {x : ObjectId} (h : x ∈ roots) : s.Below roots x :=
  ⟨x, h, .refl⟩

theorem Below.child {roots : List ObjectId} {x y : ObjectId} {e : Element} (h : s.Below roots x)
    (he : s.element? x = some e) (hy : y ∈ e.children) : s.Below roots y := by
  obtain ⟨root, hroot, hpath⟩ := h
  exact ⟨root, hroot, hpath.tail (mem_elementChildren_iff.2 ⟨e, he, hy⟩)⟩

theorem Below.induction {P : ObjectId → Prop} {roots : List ObjectId} {x : ObjectId}
    (h : s.Below roots x) (hroots : ∀ id ∈ roots, P id)
    (hchild : ∀ id e, P id → s.element? id = some e → ∀ child ∈ e.children, P child) : P x := by
  obtain ⟨root, hroot, hpath⟩ := h
  induction hpath with
  | refl => exact hroots root hroot
  | tail _ hstep ih =>
    obtain ⟨e, he, hmem⟩ := mem_elementChildren_iff.1 hstep
    exact hchild _ e ih he _ hmem

theorem below_of_mem_preorder {depth : Nat} {id x : ObjectId} (h : x ∈ s.preorder depth id) :
    Relation.ReflTransGen s.IsChild id x := by
  induction depth generalizing id with
  | zero =>
    rw [List.mem_singleton.1 h]
  | succ depth ih =>
    rcases List.mem_cons.1 h with rfl | h
    · exact .refl
    · obtain ⟨child, hchild, hx⟩ := List.mem_flatMap.1 h
      exact .head hchild (ih hx)

/-- Every child has a later id than its parent. -/
def Descends (s : Store) : Prop := ∀ id child, s.IsChild id child → id.index < child.index

/-- A walk that may go as deep as there are ids left reaches everything. -/
theorem mem_preorder_of_below (h : s.Descends) {depth : Nat} {id x : ObjectId}
    (hdepth : s.nextId ≤ id.index + depth) (hx : Relation.ReflTransGen s.IsChild id x) :
    x ∈ s.preorder depth id := by
  induction depth generalizing id with
  | zero =>
    rcases hx.cases_head with rfl | ⟨child, hchild, -⟩
    · exact List.mem_singleton_self id
    · have hlt := hchild.index_lt
      omega
  | succ depth ih =>
    rcases hx.cases_head with rfl | ⟨child, hchild, hx⟩
    · exact List.mem_cons_self
    · have hlt := h id child hchild
      exact List.mem_cons_of_mem _ (List.mem_flatMap.2 ⟨child, hchild, ih (by omega) hx⟩)

theorem mem_subtree_iff (h : s.Descends) {roots : List ObjectId} {x : ObjectId} :
    x ∈ s.subtree roots ↔ s.Below roots x := by
  rw [subtree_eq, List.mem_flatMap]
  exact exists_congr fun root => and_congr_right fun _ =>
    ⟨below_of_mem_preorder, mem_preorder_of_below h (Nat.le_add_left _ _)⟩

end PluginRegistry.Store
