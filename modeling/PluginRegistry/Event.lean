import PluginRegistry.Delta

/-!
# Change events

A `ChangeEvent` is what one listener sees of a write: its delta map, or the entry of one namespace
if the listener asked for that alone. A `DeltaView` is one change together with the snapshot in
which its extension and its point are looked up. How that is asked is a parameter of the queries.
-/

namespace PluginRegistry

/-- One change, with the snapshot that holds its objects. -/
structure DeltaView where
  delta : ExtensionDelta
  snapshot : SnapshotId
  deriving DecidableEq, Repr

namespace DeltaView

def extension (v : DeltaView) : ExtensionHandle := ⟨.snapshot v.snapshot, v.delta.extension⟩

def point (v : DeltaView) : PointHandle := ⟨.snapshot v.snapshot, v.delta.point⟩

end DeltaView

/-- The changes of an entry; one without a snapshot shows none. -/
def NamespaceDelta.views (d : NamespaceDelta) : List DeltaView :=
  match d.snapshot with
  | some snapshot => d.deltas.map fun delta => { delta, snapshot }
  | none => []

/-- The changes of a write as one listener sees them. -/
structure ChangeEvent where
  deltas : DeltaMap
  /-- The only namespace to be seen, if there is one. -/
  filter : Option String
  deriving DecidableEq, Repr

namespace ChangeEvent

/-- Whether a namespace may be seen. -/
def shows (e : ChangeEvent) (ns : String) : Bool :=
  match e.filter with
  | none => true
  | some only => only = ns

def namespaces (e : ChangeEvent) : List String := e.deltas.namespaces.filter e.shows

def viewsIn (e : ChangeEvent) (ns : String) : List DeltaView :=
  if e.shows ns then
    match e.deltas.find? ns with
    | some d => d.views
    | none => []
  else []

/-- All changes to be seen. -/
def views (e : ChangeEvent) : List DeltaView :=
  match e.filter with
  | some ns => e.viewsIn ns
  | none => e.deltas.entries.flatMap NamespaceDelta.views

/-- The changes to the point with this namespace and local name. -/
def viewsFor (e : ChangeEvent) (look : Resolvers) (ns pointLocalId : String) :
    List DeltaView :=
  (e.viewsIn ns).filter fun v =>
    match v.point.uniqueId look with
    | .ok uniqueId => uniqueId = Name.qualify ns pointLocalId
    | .error _ => false

/-- The change of one named extension at the point with this namespace and local name. -/
def view? (e : ChangeEvent) (look : Resolvers) (ns pointLocalId extensionId : String) :
    Option DeltaView :=
  (e.viewsFor look ns pointLocalId).find? fun v =>
    match v.extension.uniqueId? look with
    | .ok uniqueId => uniqueId = some extensionId
    | .error _ => false

end ChangeEvent

end PluginRegistry
