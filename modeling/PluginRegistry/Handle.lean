import PluginRegistry.Error

/-!
# Handles

A handle is the id of an object together with the kind it is taken for and the `Source` in which it
is looked up: the live store of a registry, or the objects kept for one change event. Whoever
navigates from a handle gets handles on the same source. A handle whose object is gone answers
`invalidObject`.
-/

namespace PluginRegistry

/-- The number of a snapshot. -/
structure SnapshotId where
  index : Nat
  deriving DecidableEq, Repr

/-- Where a handle's object is looked up. -/
inductive Source
  /-- In the store as it is. -/
  | live
  /-- In a snapshot first, then in the store. -/
  | snapshot (id : SnapshotId)
  deriving DecidableEq, Repr

/-- Finds the object of an id and kind, or says why there is none. -/
abbrev Resolver := ObjectId → ObjectKind → Except RegistryError RegistryObject

/-- How each source is asked at one moment. -/
abbrev Resolvers := Source → Resolver

/-- The object of a handle: one that is not found is no longer valid. -/
def Resolver.object {α : Type} (r : Resolver) (id : ObjectId) (kind : ObjectKind)
    (pick : RegistryObject → Option α) : Except RegistryError α :=
  match r id kind with
  | .ok object =>
    match pick object with
    | some a => .ok a
    | none => .error (.invalidObject id)
  | .error (.notFound _ _) => .error (.invalidObject id)
  | .error e => .error e

structure PointHandle where
  source : Source
  id : ObjectId
  deriving DecidableEq, Repr

structure ExtensionHandle where
  source : Source
  id : ObjectId
  deriving DecidableEq, Repr

structure ElementHandle where
  source : Source
  id : ObjectId
  deriving DecidableEq, Repr

/-! ## Elements -/

/-- What an element is attached to. -/
inductive ElementParent
  | extension (h : ExtensionHandle)
  | element (h : ElementHandle)
  deriving DecidableEq, Repr

namespace ElementHandle

def object (h : ElementHandle) (look : Resolvers) : Except RegistryError Element :=
  (look h.source).object h.id .element RegistryObject.element?

def isValid (h : ElementHandle) (look : Resolvers) : Bool := (h.object look).isOk

def children (h : ElementHandle) (look : Resolvers) :
    Except RegistryError (List ElementHandle) := do
  let e ← h.object look
  pure (e.children.map (ElementHandle.mk h.source))

def childrenNamed (h : ElementHandle) (look : Resolvers) (name : String) :
    Except RegistryError (List ElementHandle) := do
  (← h.children look).filterM fun child => do
    let e ← child.object look
    pure (e.name = name)

def parent (h : ElementHandle) (look : Resolvers) : Except RegistryError ElementParent := do
  let e ← h.object look
  match e.parentKind with
  | .extension => pure (.extension ⟨h.source, e.parent⟩)
  | .element => pure (.element ⟨h.source, e.parent⟩)

/-- Goes up at most `steps` parents to the extension that an element belongs to. -/
def climb (look : Resolvers) (h : ElementHandle) :
    (steps : Nat) → Except RegistryError ExtensionHandle
  | 0 => .error (.invalidObject h.id)
  | steps + 1 => do
    match ← h.parent look with
    | .extension e => pure e
    | .element above => climb look above steps

/-- The extension that an element belongs to. As there are no more than 2^32 ids, no line of
distinct parents is longer. -/
def declaringExtension (h : ElementHandle) (look : Resolvers) :
    Except RegistryError ExtensionHandle :=
  h.climb look UInt32.size

end ElementHandle

/-! ## Extensions -/

namespace ExtensionHandle

def object (h : ExtensionHandle) (look : Resolvers) : Except RegistryError Extension :=
  (look h.source).object h.id .extension RegistryObject.extension?

def isValid (h : ExtensionHandle) (look : Resolvers) : Bool := (h.object look).isOk

/-- The qualified identifier, if the extension has a name. -/
def uniqueId? (h : ExtensionHandle) (look : Resolvers) : Except RegistryError (Option String) := do
  let e ← h.object look
  pure e.uniqueId?

def elements (h : ExtensionHandle) (look : Resolvers) :
    Except RegistryError (List ElementHandle) := do
  let e ← h.object look
  pure (e.children.map (ElementHandle.mk h.source))

end ExtensionHandle

/-! ## Extension points -/

namespace PointHandle

def object (h : PointHandle) (look : Resolvers) : Except RegistryError ExtensionPoint :=
  (look h.source).object h.id .point RegistryObject.point?

def isValid (h : PointHandle) (look : Resolvers) : Bool := (h.object look).isOk

def uniqueId (h : PointHandle) (look : Resolvers) : Except RegistryError String := do
  let p ← h.object look
  pure p.uniqueId

def extensions (h : PointHandle) (look : Resolvers) :
    Except RegistryError (List ExtensionHandle) := do
  let p ← h.object look
  pure (p.children.map (ExtensionHandle.mk h.source))

/-- The first of some extensions with this qualified identifier. Each one looked at has to be
valid. -/
def findNamed (look : Resolvers) (uniqueId : String) :
    List ExtensionHandle → Except RegistryError (Option ExtensionHandle)
  | [] => pure none
  | e :: es => do
    if (← e.uniqueId? look) = some uniqueId then pure (some e) else findNamed look uniqueId es

/-- The linked extension with this qualified identifier. -/
def extensionNamed? (h : PointHandle) (look : Resolvers) (uniqueId : String) :
    Except RegistryError (Option ExtensionHandle) := do
  findNamed look uniqueId (← h.extensions look)

def elements (h : PointHandle) (look : Resolvers) : Except RegistryError (List ElementHandle) := do
  let lists ← (← h.extensions look).mapM fun e => e.elements look
  pure lists.flatten

end PointHandle

/-! ## Handles of any kind -/

/-- A handle with its kind. -/
inductive Handle
  | point (h : PointHandle)
  | extension (h : ExtensionHandle)
  | element (h : ElementHandle)
  deriving DecidableEq, Repr

namespace Handle

def id : Handle → ObjectId
  | .point h => h.id
  | .extension h => h.id
  | .element h => h.id

def source : Handle → Source
  | .point h => h.source
  | .extension h => h.source
  | .element h => h.source

def kind : Handle → ObjectKind
  | .point _ => .point
  | .extension _ => .extension
  | .element _ => .element

def isValid (h : Handle) (look : Resolvers) : Bool :=
  match h with
  | .point h => h.isValid look
  | .extension h => h.isValid look
  | .element h => h.isValid look

/-- Whether two handles are equal for the host, which does not see where they are looked up. -/
def equals (a b : Handle) : Bool := a.kind = b.kind && a.id = b.id

/-- The name of a handle's type in a description. -/
def typeName : ObjectKind → String
  | .point => "ExtensionPointHandle"
  | .extension => "ExtensionHandle"
  | .element => "ConfigurationElementHandle"

def describe (h : Handle) : String :=
  typeName h.kind ++ " \x7b id: ObjectId(" ++ toString h.id.index ++ ") \x7d"

end Handle

end PluginRegistry
