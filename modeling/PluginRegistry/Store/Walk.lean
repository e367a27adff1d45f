import PluginRegistry.Store.Basic

/-!
# Walking element trees

`Store.subtree` lists the elements below some roots, each before its children. The walk keeps what
is still to be visited on one stack. Beside each id stands how deep the walk may still go below
it; a branch of distinct elements is never longer than the store has slots, so the limit is met
only where elements contain each other in a circle.
-/

namespace PluginRegistry.Store

/-- The children of a live element; any other id has none. -/
def elementChildren (s : Store) (id : ObjectId) : List ObjectId :=
  match s.element? id with
  | some e => e.children
  | none => []

def total : List Nat → Nat
  | [] => 0
  | n :: ns => n + total ns

theorem total_append (ms ns : List Nat) : total (ms ++ ns) = total ms + total ns := by
  induction ms with
  | nil => simp [total]
  | cons m ms ih => simp only [List.cons_append, total, ih]; omega

/-- The number of visits below `id`, itself included, that go at most `depth` deeper. -/
def visits (s : Store) : (depth : Nat) → ObjectId → Nat
  | 0, _ => 1
  | depth + 1, id => 1 + total ((s.elementChildren id).map (s.visits depth))

/-- Visits what is on the stack and puts each id behind those visited before. -/
def walk (s : Store) (stack : List (Nat × ObjectId)) (visited : Array ObjectId) : Array ObjectId :=
  match stack with
  | [] => visited
  | (0, id) :: rest => s.walk rest (visited.push id)
  | (depth + 1, id) :: rest =>
    s.walk ((s.elementChildren id).map (depth, ·) ++ rest) (visited.push id)
termination_by total (stack.map fun entry => s.visits entry.1 entry.2)
decreasing_by
  · simp [visits, total]
  · simp only [List.map_append, total_append, List.map_map, List.map_cons, total, visits]
    have h : (fun entry : Nat × ObjectId => s.visits entry.1 entry.2) ∘ (depth, ·) =
        s.visits depth := rfl
    rw [h]
    omega

/-- The ids of the elements at and below some roots, each before its children. An id that is not a
live element stands alone. -/
def subtree (s : Store) (roots : List ObjectId) : List ObjectId :=
  (s.walk (roots.map (s.slots.size, ·)) #[]).toList

/-- The extensions of a contribution, each with the elements of its content behind it. -/
def extensionTrees (s : Store) (c : Contribution) : List (ObjectId × List ObjectId) :=
  c.extensions.map fun id =>
    (id, match s.object? id with
      | some object => s.subtree object.children
      | none => [])

/-- The ids of one kind that a contributor brought in. -/
def objectsFrom (s : Store) (c : ContributorId) (kind : ObjectKind) : List ObjectId :=
  match s.contribution? c with
  | none => []
  | some known =>
    match kind with
    | .point => known.points
    | .extension => known.extensions
    | .element => (s.extensionTrees known).flatMap (·.2)

/-- Everything a contributor owns: its points, its extensions and their elements. -/
def associated (s : Store) (c : ContributorId) : List ObjectId :=
  match s.contribution? c with
  | none => []
  | some known =>
    known.points ++ (s.extensionTrees known).flatMap fun (id, elements) => id :: elements

end PluginRegistry.Store
