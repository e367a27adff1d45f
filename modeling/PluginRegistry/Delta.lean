import PluginRegistry.Snapshot

/-!
# Changes of one write

While a write runs, a `DeltaTracker` notes each extension that was linked or unlinked, grouped by
the namespace of the point, and keeps the objects concerned. At the end of the write its notes
become a `DeltaMap`, whose entries share one snapshot. A tracker that does not record keeps
nothing.
-/

namespace PluginRegistry

/-- Whether an extension was linked or unlinked. -/
inductive DeltaKind
  | added
  | removed
  deriving DecidableEq, Repr

/-- One extension linked to or unlinked from one point. -/
structure ExtensionDelta where
  extension : ObjectId
  point : ObjectId
  kind : DeltaKind
  deriving DecidableEq, Repr

/-- The changes in one namespace. Only those of a finished write have a snapshot. -/
structure NamespaceDelta where
  ns : String
  deltas : List ExtensionDelta := []
  snapshot : Option SnapshotId := none
  deriving DecidableEq, Repr

/-- The changes of one write, a namespace after the other as they were first touched. -/
structure DeltaMap where
  entries : List NamespaceDelta
  deriving DecidableEq, Repr

namespace DeltaMap

def empty : DeltaMap := ⟨[]⟩

def isEmpty (m : DeltaMap) : Bool := m.entries.isEmpty

def namespaces (m : DeltaMap) : List String := m.entries.map (·.ns)

def find? (m : DeltaMap) (ns : String) : Option NamespaceDelta := m.entries.find? (·.ns = ns)

def contains (m : DeltaMap) (ns : String) : Bool := (m.find? ns).isSome

/-- Makes an entry for a namespace that has none. -/
def touch (m : DeltaMap) (ns : String) : DeltaMap :=
  if m.contains ns then m else ⟨m.entries ++ [{ ns := ns }]⟩

/-- Adds a change at the end of a namespace's entry. -/
def push (m : DeltaMap) (ns : String) (delta : ExtensionDelta) : DeltaMap :=
  ⟨(m.touch ns).entries.map fun entry =>
    if entry.ns = ns then { entry with deltas := entry.deltas ++ [delta] } else entry⟩

def withSnapshot (m : DeltaMap) (id : SnapshotId) : DeltaMap :=
  ⟨m.entries.map fun entry => { entry with snapshot := some id }⟩

/-- Closes the snapshots of all entries. -/
def close (m : DeltaMap) (snapshots : Snapshots) : Snapshots :=
  (m.entries.filterMap (·.snapshot)).foldl Snapshots.close snapshots

end DeltaMap

/-- Notes the changes of the write that is running. -/
structure DeltaTracker where
  recording : Bool := false
  deltas : DeltaMap := .empty
  captured : Captured := ∅

namespace DeltaTracker

def start (recording : Bool) : DeltaTracker := { recording := recording }

/-- The entry of a namespace so far, made if it is missing. -/
def entry (t : DeltaTracker) (ns : String) : NamespaceDelta × DeltaTracker :=
  let deltas := t.deltas.touch ns
  ((deltas.find? ns).getD { ns := ns }, { t with deltas })

def record (t : DeltaTracker) (ns : String) (delta : ExtensionDelta) : DeltaTracker :=
  if t.recording then { t with deltas := t.deltas.push ns delta } else t

/-- Keeps an object; of two with one id the later. -/
def capture (t : DeltaTracker) (object : RegistryObject) : DeltaTracker :=
  if t.recording then { t with captured := t.captured.insert object.id object } else t

/-- Ends the write: its changes, with the captured objects as their snapshot. The tracker keeps
nothing and records no more. -/
def finish (t : DeltaTracker) (snapshots : Snapshots) : DeltaMap × Snapshots × DeltaTracker :=
  if t.deltas.isEmpty then (.empty, snapshots, {})
  else
    let (id, snapshots) := snapshots.add t.captured
    (t.deltas.withSnapshot id, snapshots, {})

end DeltaTracker

end PluginRegistry
