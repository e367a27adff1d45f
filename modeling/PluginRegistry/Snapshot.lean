import Std.Data.ExtTreeMap
import PluginRegistry.Handle

/-!
# Snapshots

The objects that a write touches are kept for those who are told about the write, also when the
write removed them. Each such set is a snapshot with a number, and `Snapshots` holds them all. A
snapshot is asked before the live store; once closed it answers nothing any more, to nobody who
still has its number.
-/

namespace PluginRegistry

/-- Objects kept from one write, by id. -/
abbrev Captured := Std.ExtTreeMap ObjectId RegistryObject

/-- All snapshots ever taken; a closed one is empty. -/
structure Snapshots where
  tables : Array (Option Captured)

namespace Snapshots

def empty : Snapshots := ⟨#[]⟩

def add (s : Snapshots) (captured : Captured) : SnapshotId × Snapshots :=
  (⟨s.tables.size⟩, ⟨s.tables.push (some captured)⟩)

/-- The objects of a snapshot that is not closed. -/
def captured? (s : Snapshots) (id : SnapshotId) : Option Captured := s.tables[id.index]?.join

def isClosed (s : Snapshots) (id : SnapshotId) : Bool := (s.captured? id).isNone

def close (s : Snapshots) (id : SnapshotId) : Snapshots :=
  ⟨s.tables.setIfInBounds id.index none⟩

/-- Asks a snapshot; what it does not hold is looked up in `fallback`. -/
def resolver (s : Snapshots) (id : SnapshotId) (fallback : Resolver) : Resolver :=
  fun object kind =>
    match s.captured? id with
    | none => .error .deltaClosed
    | some captured =>
      match captured[object]? with
      | some found => if found.kind = kind then .ok found else .error (.notFound object kind)
      | none => fallback object kind

def describe (s : Snapshots) (id : SnapshotId) : String :=
  let captured := match s.captured? id with
    | some captured => captured.size
    | none => 0
  "DeltaObjectManager \x7b closed: " ++ toString (s.isClosed id) ++ ", captured: " ++
    toString captured ++ " \x7d"

theorem captured?_close (s : Snapshots) (id other : SnapshotId) :
    (s.close id).captured? other = if other = id then none else s.captured? other := by
  simp only [close, captured?, Array.getElem?_setIfInBounds]
  by_cases h : other = id
  · subst h
    by_cases hb : other.index < s.tables.size <;> simp [hb]
  · have hi : id.index ≠ other.index := fun e => h (by cases other; cases id; simp_all)
    simp [hi, h]

end Snapshots

end PluginRegistry
