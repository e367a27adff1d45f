import PluginRegistry.Cache.Error
import PluginRegistry.Store.Parts

/-!
# Integrity of decoded parts

`checkIntegrity` accepts parts in which every id is below the number of slots and occurs once, and
every reference leads to an object of the kind it should: children, parents, contributed points
and extensions, and orphans. The first fault found is reported.
-/

namespace PluginRegistry.Cache

/-- The kind of each object, by id. -/
abbrev Kinds := Std.ExtTreeMap ObjectId ObjectKind

/-- Enters the objects one by one; each id has to be below `nextId` and new. -/
def enterKinds (nextId : UInt32) (kinds : Kinds) : List RegistryObject → Except Error Kinds
  | [] => .ok kinds
  | object :: objects =>
    if object.id.val < nextId then
      if kinds.contains object.id then .error (.corrupt .table (.idTwice object.id))
      else enterKinds nextId (kinds.insert object.id object.kind) objects
    else .error (.corrupt .table (.idOutOfRange object.id))

/-- All of `ids` have to be objects of this kind. -/
def expectAll (kinds : Kinds) (s : Section) (kind : ObjectKind) : List ObjectId → Except Error Unit
  | [] => .ok ()
  | id :: ids =>
    if kinds[id]? = some kind then expectAll kinds s kind ids
    else .error (.corrupt s (.notLive id kind))

def checkReferences (kinds : Kinds) (object : RegistryObject) : Except Error Unit := do
  expectAll kinds .main object.childKind object.children
  match object with
  | .element e => expectAll kinds .main e.parentKind.objectKind [e.parent]
  | _ => pure ()

/-- The first fault in the parts of a store, if there is one. -/
def checkIntegrity (parts : Parts) : Except Error Unit := do
  let kinds ← enterKinds parts.nextId ∅ parts.objects
  parts.objects.forM (checkReferences kinds)
  parts.contributions.forM fun c => do
    expectAll kinds .contributions .point c.points
    expectAll kinds .contributions .extension c.extensions
  parts.orphans.forM fun bucket => expectAll kinds .orphans .extension bucket.2

end PluginRegistry.Cache
