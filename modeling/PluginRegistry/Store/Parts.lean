import PluginRegistry.Store.Basic

/-!
# The parts of a store

`Parts` is a store laid out as lists, which is what a cache holds: the live objects in the order of
their ids, the contributions in theirs, and the orphan buckets sorted by the point they wait for.
`Store.toParts` lays a store out, `Store.ofParts` builds one; the index is made anew.
-/

namespace PluginRegistry

/-- A store as lists. -/
structure Parts where
  nextId : UInt32
  objects : List RegistryObject
  contributions : List Contribution
  orphans : List (String × List ObjectId)
  deriving DecidableEq, Repr

namespace Store

def toParts (s : Store) : Parts where
  nextId := s.slots.size.toUInt32
  objects := s.objects
  contributions := s.contributions
  orphans := s.orphans.toList

/-- The index of all points in the slots; of two with one unique id the later slot counts. -/
def indexOf (objects : List RegistryObject) : Std.ExtTreeMap String ObjectId :=
  objects.foldl (fun index object =>
    match object with
    | .point p => index.insert p.uniqueId p.id
    | _ => index) ∅

/-- Files a contribution under its contributor; one already there is replaced where it stands. -/
def fileContribution (known : List Contribution) (c : Contribution) : List Contribution :=
  if known.any (·.contributor = c.contributor) then
    known.map fun earlier => if earlier.contributor = c.contributor then c else earlier
  else known ++ [c]

/-- The store with these parts, unchanged since. -/
def ofParts (parts : Parts) : Store :=
  let blank : Store := { empty with slots := Array.replicate parts.nextId.toNat none }
  let filled := parts.objects.foldl (fun s object => s.put object false) blank
  { filled with
    pointIndex := indexOf filled.objects
    contributions := parts.contributions.foldl fileContribution []
    orphans := Std.ExtTreeMap.ofList parts.orphans
    dirty := false }

end Store

end PluginRegistry
