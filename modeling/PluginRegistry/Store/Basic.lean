import Std.Data.ExtTreeMap
import PluginRegistry.Contribution
import PluginRegistry.Error

/-!
# The object store

A `Store` keeps every live object in the slot of its id, an index from unique ids to extension
points, the contributions in the order of their first arrival, and the orphans: extensions whose
point does not exist yet, in a bucket for each point they name. Ids are handed out in order and
never twice. A change sets `dirty`, which decides later whether the store has to be written out.

What an operation does is said by what it leaves in a slot: `object?_put`, `object?_removeOne`.
-/

namespace PluginRegistry

/-- All objects of a registry, with who contributed them and what still waits for its point. -/
structure Store where
  slots : Array (Option RegistryObject)
  pointIndex : Std.ExtTreeMap String ObjectId
  contributions : List Contribution
  orphans : Std.ExtTreeMap String (List ObjectId)
  dirty : Bool

namespace Store

/-- A store in which nothing was ever stored. -/
def empty : Store := ⟨#[], ∅, [], ∅, false⟩

/-! ## Objects -/

/-- The number of ids handed out so far; the next id. -/
def nextId (s : Store) : Nat := s.slots.size

def object? (s : Store) (id : ObjectId) : Option RegistryObject := s.slots[id.index]?.join

/-- The live object with this id, if it is of this kind. -/
def get (s : Store) (id : ObjectId) (kind : ObjectKind) : Except RegistryError RegistryObject :=
  match s.object? id with
  | some object => if object.kind = kind then .ok object else .error (.notFound id kind)
  | none => .error (.notFound id kind)

def point? (s : Store) (id : ObjectId) : Option ExtensionPoint :=
  (s.object? id).bind RegistryObject.point?

def extension? (s : Store) (id : ObjectId) : Option Extension :=
  (s.object? id).bind RegistryObject.extension?

def element? (s : Store) (id : ObjectId) : Option Element :=
  (s.object? id).bind RegistryObject.element?

def pointNamed? (s : Store) (uniqueId : String) : Option ExtensionPoint :=
  s.pointIndex[uniqueId]?.bind s.point?

/-- Hands out the next id. Its slot stays empty for now. -/
def allocate (s : Store) : ObjectId × Store :=
  (ObjectId.ofIndex s.slots.size, { s with slots := s.slots.push none })

/-- The slots, with empty ones added up to the slot of `id`. -/
def slotsUpTo (s : Store) (id : ObjectId) : Array (Option RegistryObject) :=
  s.slots ++ Array.replicate (id.index + 1 - s.slots.size) none

/-- Stores an object in the slot of its id. A point enters the index only if `indexed`. -/
def put (s : Store) (object : RegistryObject) (indexed : Bool) : Store :=
  { s with
    slots := (s.slotsUpTo object.id).setIfInBounds object.id.index (some object)
    pointIndex :=
      match object with
      | .point p => if indexed then s.pointIndex.insert p.uniqueId p.id else s.pointIndex
      | _ => s.pointIndex
    dirty := true }

/-- Gives a point another list of children. Whoever holds the old point keeps it as it was. -/
def setPointChildren (s : Store) (id : ObjectId) (children : List ObjectId) :
    Option (ExtensionPoint × Store) :=
  (s.point? id).map fun p =>
    let updated := { p with children }
    (updated, { s with
      slots := s.slots.setIfInBounds id.index (some (.point updated))
      dirty := true })

/-- Takes the object with this id out. The index forgets a point only if it still leads there. -/
def removeOne (s : Store) (id : ObjectId) : Option RegistryObject × Store :=
  match s.object? id with
  | none => (none, s)
  | some object =>
    (some object, { s with
      slots := s.slots.setIfInBounds id.index none
      pointIndex :=
        match object with
        | .point p =>
          if s.pointIndex[p.uniqueId]? = some id then s.pointIndex.erase p.uniqueId
          else s.pointIndex
        | _ => s.pointIndex
      dirty := true })

/-- Takes objects out and says which were there. Their ids are not given out again. -/
def remove (s : Store) : List ObjectId → List RegistryObject × Store
  | [] => ([], s)
  | id :: ids =>
    let (object, s) := s.removeOne id
    let (objects, s) := s.remove ids
    (object.toList ++ objects, s)

/-- The live objects in the order of their ids. -/
def objects (s : Store) : List RegistryObject := s.slots.toList.filterMap id

def size (s : Store) : Nat := s.objects.length

/-- The live extension points in the order of their ids. -/
def pointIds (s : Store) : List ObjectId :=
  (s.objects.filter (·.kind = .point)).map (·.id)

/-! ## Contributions -/

def contribution? (s : Store) (c : ContributorId) : Option Contribution :=
  s.contributions.find? (·.contributor = c)

def hasContribution (s : Store) (c : ContributorId) : Bool := (s.contribution? c).isSome

/-- Adds a contribution; one from a contributor already known joins its earlier one. -/
def addContribution (s : Store) (c : Contribution) : Store :=
  { s with
    contributions :=
      if s.hasContribution c.contributor then
        s.contributions.map fun earlier =>
          if earlier.contributor = c.contributor then earlier.merge c else earlier
      else s.contributions ++ [c]
    dirty := true }

def removeContribution (s : Store) (c : ContributorId) : Option Contribution × Store :=
  match s.contribution? c with
  | none => (none, s)
  | some known =>
    (some known, { s with
      contributions := s.contributions.filter (·.contributor ≠ c)
      dirty := true })

/-- The contributors whose contribution is in a namespace. -/
def contributorsIn (s : Store) (ns : String) : List ContributorId :=
  (s.contributions.filter (·.ns = ns)).map (·.contributor)

def namespaces (s : Store) : List String := (s.contributions.map (·.ns)).eraseDups

/-! ## Orphans -/

def orphansOf? (s : Store) (point : String) : Option (List ObjectId) := s.orphans[point]?

/-- Lets extensions wait for a point. -/
def addOrphans (s : Store) (point : String) (extensions : List ObjectId) : Store :=
  if extensions = [] then s
  else { s with
    orphans := s.orphans.insert point ((s.orphansOf? point).getD [] ++ extensions)
    dirty := true }

/-- Takes the whole bucket of a point. -/
def takeOrphans (s : Store) (point : String) : Option (List ObjectId × Store) :=
  (s.orphansOf? point).map fun bucket =>
    (bucket, { s with orphans := s.orphans.erase point, dirty := true })

/-- Takes one extension out of a bucket and says whether it was there. An empty bucket goes. -/
def removeOrphan (s : Store) (point : String) (extension : ObjectId) : Bool × Store :=
  match s.orphansOf? point with
  | none => (false, s)
  | some bucket =>
    let rest := bucket.filter (· ≠ extension)
    let found := decide (rest.length ≠ bucket.length)
    -- a bucket that is empty already goes without a mark
    (found, { s with
      orphans := if rest = [] then s.orphans.erase point else s.orphans.insert point rest
      dirty := s.dirty || found })

def orphanCount (s : Store) : Nat := s.orphans.toList.foldl (fun n bucket => n + bucket.2.length) 0

/-! ## What a change does to a slot -/

theorem object?_allocate (s : Store) (id : ObjectId) : s.allocate.2.object? id = s.object? id := by
  simp only [allocate, object?, Array.getElem?_push]
  by_cases h : id.index = s.slots.size
  · simp [h]
  · simp [h]

theorem object?_put (s : Store) (object : RegistryObject) (indexed : Bool) (id : ObjectId) :
    (s.put object indexed).object? id = if id = object.id then some object else s.object? id := by
  simp only [put, object?, slotsUpTo, Array.getElem?_setIfInBounds]
  by_cases h : id = object.id
  · subst h
    have hlt : object.id.index < s.slots.size + (object.id.index + 1 - s.slots.size) := by omega
    simp [hlt]
  · have hi : object.id.index ≠ id.index := fun e => h (ObjectId.index_inj e).symm
    simp only [hi, if_false, h, Array.getElem?_append]
    split
    · rfl
    · rename_i hs
      rw [Array.getElem?_replicate, Array.getElem?_eq_none (by omega)]
      split <;> rfl

theorem object?_removeOne (s : Store) (id other : ObjectId) :
    (s.removeOne id).2.object? other = if other = id then none else s.object? other := by
  unfold removeOne
  cases h : s.object? id with
  | none =>
    by_cases e : other = id
    · simp [e, h]
    · simp [e]
  | some object =>
    simp only [object?, Array.getElem?_setIfInBounds]
    by_cases e : other = id
    · subst e
      by_cases hb : other.index < s.slots.size <;> simp [hb]
    · have hi : id.index ≠ other.index := fun x => e (ObjectId.index_inj x).symm
      simp [hi, e]

end Store

end PluginRegistry
