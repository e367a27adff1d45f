import PluginRegistry.Log
import PluginRegistry.Store.Walk

/-!
# Transactions

A write works on a `Transaction`: the store, the tracker of what changes, and the log. Linking puts
an extension into the child list of the point it targets, or lets it wait among the orphans until
that point exists; unlinking is the way back. An extension is at one of the two places, never at
both. Each step says in which namespace a change was recorded.
-/

namespace PluginRegistry

/-- What one write works on. -/
structure Transaction where
  objects : Store
  tracker : DeltaTracker
  log : Array LogRecord := #[]

namespace Transaction

def report (t : Transaction) (r : LogRecord) : Transaction := { t with log := t.log.push r }

/-- Keeps an extension with all elements of its content. -/
def capture (t : Transaction) (id : ObjectId) : Transaction :=
  match t.objects.object? id with
  | none => t
  | some object =>
    let below := (t.objects.subtree object.children).filterMap t.objects.object?
    { t with tracker := (object :: below).foldl DeltaTracker.capture t.tracker }

/-- Notes that extensions were linked to or unlinked from a point. -/
def record (t : Transaction) (point : ExtensionPoint) (extensions : List ObjectId)
    (kind : DeltaKind) : Option String × Transaction :=
  if !t.tracker.recording || extensions.isEmpty then (none, t)
  else
    let t := { t with tracker := t.tracker.capture (.point point) }
    let t := extensions.foldl (fun t extension =>
      let t := t.capture extension
      { t with tracker := t.tracker.record point.ns { extension, point := point.id, kind } }) t
    (some point.ns, t)

/-! ## Linking -/

/-- Links an extension to its point, or lets it wait for it. -/
def linkExtension (t : Transaction) (id : ObjectId) : Option String × Transaction :=
  match t.objects.extension? id with
  | none => (none, t)
  | some extension =>
    match t.objects.pointNamed? extension.target with
    | none =>
      let t := t.report (.extensionParked id extension.target)
      (none, { t with objects := t.objects.addOrphans extension.target [id] })
    | some point =>
      if point.children.contains id then (none, t)
      else
        match t.objects.setPointChildren point.id (point.children ++ [id]) with
        | none => (none, t)
        | some (point, objects) =>
          let t := { t with objects }
          (t.report (.extensionLinked id point.uniqueId)).record point [id] .added

/-- Links the extensions that were waiting for a point. -/
def linkPoint (t : Transaction) (id : ObjectId) : Option String × Transaction :=
  match t.objects.point? id with
  | none => (none, t)
  | some point =>
    match t.objects.takeOrphans point.uniqueId with
    | none => (none, t)
    | some (bucket, objects) =>
      let orphans := bucket.eraseDups
      match objects.setPointChildren id orphans with
      | none => (none, { t with objects })
      | some (point, objects) =>
        let t := { t with objects }
        (t.report (.orphansLinked point.uniqueId orphans.length)).record point orphans .added

/-- Unlinks an extension from its point, or ends its waiting. -/
def unlinkExtension (t : Transaction) (id : ObjectId) : Option String × Transaction :=
  match t.objects.extension? id with
  | none => (none, t)
  | some extension =>
    let linked := (t.objects.pointNamed? extension.target).filter (·.children.contains id)
    match linked with
    | none => (none, { t with objects := (t.objects.removeOrphan extension.target id).2 })
    | some point =>
      match t.objects.setPointChildren point.id (point.children.filter (· ≠ id)) with
      | none => (none, t)
      | some (point, objects) =>
        let t := { t with objects }
        (t.report (.extensionUnlinked id point.uniqueId)).record point [id] .removed

/-- Lets the extensions of a point wait for the next point of that name. -/
def unlinkPoint (t : Transaction) (id : ObjectId) : Option String × Transaction :=
  match t.objects.point? id with
  | none => (none, t)
  | some point =>
    if point.children.isEmpty then (none, t)
    else
      let children := point.children
      let objects := t.objects.addOrphans point.uniqueId children
      match objects.setPointChildren id [] with
      | none => (none, { t with objects })
      | some (point, objects) =>
        let t := { t with objects }
        (t.report (.pointUnlinked point.uniqueId children.length)).record point children .removed

/-- Takes a step for each id and collects the namespaces in which changes were recorded. -/
def forEach (step : Transaction → ObjectId → Option String × Transaction) (t : Transaction) :
    List ObjectId → List String × Transaction
  | [] => ([], t)
  | id :: ids =>
    let (ns, t) := step t id
    let (others, t) := t.forEach step ids
    (ns.toList ++ others, t)

/-- Links new points, then new extensions. -/
def linkAll (t : Transaction) (points extensions : List ObjectId) : List String × Transaction :=
  let (before, t) := t.forEach linkPoint points
  let (after, t) := t.forEach linkExtension extensions
  ((before ++ after).eraseDups, t)

/-- Unlinks the extensions of a contributor, then its points. -/
def unlinkAll (t : Transaction) (c : ContributorId) : List String × Transaction :=
  let (before, t) := t.forEach unlinkExtension (t.objects.objectsFrom c .extension)
  let (after, t) := t.forEach unlinkPoint (t.objects.objectsFrom c .point)
  ((before ++ after).eraseDups, t)

end Transaction

end PluginRegistry
