import PluginRegistry.Registry.Basic

/-!
# Writes

A write runs on a transaction from which its changes are taken at the end; if there are any, they
become one event for those who were listening when it began. A stopped registry refuses every
write, and a refused write leaves the registry as it was, up to the log.
-/

namespace PluginRegistry.Registry

/-- What is logged about changes that are not delivered. -/
def undelivered (d : Dispatcher) (deltas : DeltaMap) : List LogRecord :=
  if d.stopped then [.eventDropped deltas.entries.length]
  else d.refusal?.toList.map LogRecord.workerNotStarted

/-- Queues the changes of a write for the listeners. -/
def fire (r : Registry) (listeners : List ListenerInfo) (deltas : DeltaMap) : Registry :=
  if deltas.isEmpty then r
  else if listeners.isEmpty then { r with dispatcher := r.dispatcher.close deltas }
  else
    let r := r.reportAll (undelivered r.dispatcher deltas)
    { r with dispatcher := r.dispatcher.schedule { listeners, deltas } }

/-- Runs a write and queues its changes. -/
def transact {α : Type} (r : Registry) (write : Transaction → α × Transaction) :
    Except RegistryError α × Registry :=
  if r.stopped then (.error .stopped, r)
  else
    let (a, t) := write {
      objects := r.objects
      tracker := .start (!r.listeners.isEmpty)
      log := r.log }
    let (deltas, snapshots, _) := t.tracker.finish r.dispatcher.snapshots
    let r := { r with
      objects := t.objects
      log := t.log
      dispatcher := { r.dispatcher with snapshots } }
    (.ok a, r.fire r.listeners deltas)

/-- A declaration with what the host says about its contributor. An anonymous one is ignored. -/
def prepare (r : Registry) (d : Declaration) : Option PreparedDeclaration × Registry :=
  match r.strategy.namespaces.find? d.contributor with
  | none => (none, r.report (.anonymousIgnored d.contributor))
  | some ns =>
    (some { declaration := d, ns, owner := r.strategy.ownerOf d.contributor }, r)

/-- Prepares declarations and leaves the anonymous ones out. -/
def prepareAll (r : Registry) : List Declaration → List PreparedDeclaration × Registry
  | [] => ([], r)
  | d :: ds =>
    let (prepared, r) := r.prepare d
    let (others, r) := r.prepareAll ds
    (prepared.toList ++ others, r)

def addAll (r : Registry) (declarations : List Declaration) :
    Except RegistryError Unit × Registry :=
  let (prepared, r) := r.prepareAll declarations
  if prepared.isEmpty then (.ok (), r)
  else r.transact fun t => ((), prepared.foldl (fun t p => (t.ingest p).2) t)

def add (r : Registry) (d : Declaration) : Except RegistryError Unit × Registry := r.addAll [d]

/-- Removes everything a contributor owns and says whether it was known. -/
def remove (r : Registry) (c : ContributorId) : Except RegistryError Bool × Registry :=
  r.transact fun t => t.removeContributor c

/-- A function that reads a declaration from a named source, or lists what is wrong with it. -/
abbrev DeclarationReader := ContributorId → Bytes → String → Except (List String) Declaration

/-- Adds the declaration in a source. If the source has problems they are logged, and the answer
is that nothing was added. -/
def addFromSource (r : Registry) (read : DeclarationReader) (c : ContributorId) (source : Bytes)
    (name : String) (token : Option AccessToken) : Except RegistryError Bool × Registry :=
  match r.checkWriteAccess token .addFromSource with
  | .error e => (.error e, r)
  | .ok _ =>
    match read c source name with
    | .ok declaration =>
      let (result, r) := r.add declaration
      (result.map fun _ => true, r)
    | .error problems =>
      (.ok false, r.reportAll (problems.map (.malformedDeclaration c name)))

/-- Ingests one declaration in a write of its own; `none` if its contributor is anonymous. -/
def ingestOne (r : Registry) (d : Declaration) :
    Except RegistryError (Option Ingested) × Registry :=
  match r.prepare d with
  | (none, r) => (.ok none, r)
  | (some prepared, r) => r.transact fun t =>
    let (ingested, t) := t.ingest prepared
    (some ingested, t)

/-- Creates an extension point. The answer is whether it was created: not for an anonymous
contributor and not if its identifier is taken. -/
def createPoint (r : Registry) (c : ContributorId) (localId label : String)
    (schema : Option String) (token : Option AccessToken) :
    Except RegistryError Bool × Registry :=
  match r.checkWriteAccess token .createExtensionPoint with
  | .error e => (.error e, r)
  | .ok _ =>
    if localId = "" then (.error (.missingArgument "extension point identifier"), r)
    else
      let point : PointDecl := { localId, label := r.strategy.localize label, schema }
      let (ingested, r) := r.ingestOne { contributor := c, points := [point] }
      (ingested.map fun i => i.any (·.points = 1), r)

/-- Creates an extension with its content. The answer is whether it was created: not for an
anonymous contributor. -/
def createExtension (r : Registry) (c : ContributorId) (localId : Option String)
    (label target : String) (content : List ElementDecl) (token : Option AccessToken) :
    Except RegistryError Bool × Registry :=
  match r.checkWriteAccess token .createExtension with
  | .error e => (.error e, r)
  | .ok _ =>
    if target = "" then (.error (.missingArgument "extension point identifier"), r)
    else
      let extension : ExtensionDecl :=
        { localId
          label := r.strategy.localize label
          target
          content := localizeAll r.strategy.localize content }
      let (ingested, r) := r.ingestOne { contributor := c, extensions := [extension] }
      (ingested.map fun i => i.any (·.extensions = 1), r)

end PluginRegistry.Registry
