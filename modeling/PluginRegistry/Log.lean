import PluginRegistry.Cache.Error
import PluginRegistry.Delta
import PluginRegistry.Text.Quoted

/-!
# The log

A `LogRecord` is one thing a registry reports about its work. Its level, its message and the text
of its fields are functions of it, so nothing else in the registry deals with wording.
-/

namespace PluginRegistry

/-- How much attention a record asks for. -/
inductive LogLevel
  | error
  | warn
  | info
  | debug
  | trace
  deriving DecidableEq, Repr

def LogLevel.text : LogLevel → String
  | .error => "error"
  | .warn => "warn"
  | .info => "info"
  | .debug => "debug"
  | .trace => "trace"

/-- One thing reported. -/
inductive LogRecord
  | malformedDeclaration (contributor : ContributorId) (source problem : String)
  | duplicatePoint (contributor : ContributorId) (point : String)
  | listenerFailed (filter : Option String) (error : String)
  | notificationProblems (delivered failed : Nat)
  | workerNotStarted (error : String)
  | cacheNotWritten (e : Cache.Error)
  | cacheNotCleared (e : Cache.Error)
  | change (kind : DeltaKind) (extension : ObjectId) (point : Option String)
  | cacheLoaded (path : Path) (objects contributions : Nat)
  | cacheUnusable (e : Cache.Error)
  | cacheLookup (hit : Bool)
  | opened (filledFromCache : Bool)
  | anonymousIgnored (contributor : ContributorId)
  | eventDropped (namespaces : Nat)
  | queueDropped (dropped : Nat)
  | cacheNotWritable
  | cachePublished (path : Path) (generation : UInt64)
  | staleKept (path : Path) (reason : FileError)
  | cacheStored (generation : UInt64)
  | stopped
  | generationStaged (generation : UInt64) (path : Path)
  | contributionAdded (contributor : ContributorId) (points extensions namespaces : Nat)
  | contributionRemoved (contributor : ContributorId) (removed namespaces : Nat)
  | extensionParked (extension : ObjectId) (point : String)
  | extensionLinked (extension : ObjectId) (point : String)
  | orphansLinked (point : String) (adopted : Nat)
  | extensionUnlinked (extension : ObjectId) (point : String)
  | pointUnlinked (point : String) (orphaned : Nat)
  deriving DecidableEq, Repr

namespace LogRecord

def level : LogRecord → LogLevel
  | malformedDeclaration .. => .error
  | duplicatePoint .. => .warn
  | listenerFailed .. => .warn
  | notificationProblems .. => .warn
  | workerNotStarted .. => .warn
  | cacheNotWritten .. => .warn
  | cacheNotCleared .. => .warn
  | change .. => .info
  | cacheLoaded .. => .debug
  | cacheUnusable .. => .debug
  | cacheLookup .. => .debug
  | opened .. => .debug
  | anonymousIgnored .. => .debug
  | eventDropped .. => .debug
  | queueDropped .. => .debug
  | cacheNotWritable => .debug
  | cachePublished .. => .debug
  | staleKept .. => .debug
  | cacheStored .. => .debug
  | stopped => .debug
  | generationStaged .. => .trace
  | contributionAdded .. => .trace
  | contributionRemoved .. => .trace
  | extensionParked .. => .trace
  | extensionLinked .. => .trace
  | orphansLinked .. => .trace
  | extensionUnlinked .. => .trace
  | pointUnlinked .. => .trace

def message : LogRecord → String
  | malformedDeclaration .. => "malformed declaration"
  | duplicatePoint .. => "duplicate extension point ignored"
  | listenerFailed .. => "registry change listener failed"
  | notificationProblems .. => "problems occurred during registry change notification"
  | workerNotStarted .. => "failed to spawn registry event dispatcher"
  | cacheNotWritten .. => "failed to write registry cache"
  | cacheNotCleared .. => "failed to clear registry cache"
  | change .. => "registry change"
  | cacheLoaded .. => "registry cache loaded"
  | cacheUnusable .. => "registry cache unusable; starting cold"
  | cacheLookup .. => "registry cache load"
  | opened .. => "extension registry opened"
  | anonymousIgnored .. => "contribution from anonymous contributor ignored"
  | eventDropped .. => "dispatcher stopped; change event dropped"
  | queueDropped .. => "queued registry change events dropped at stop"
  | cacheNotWritable => "registry cache location is not writable; skipping flush"
  | cachePublished .. => "registry cache published"
  | staleKept .. => "failed to remove stale cache directory"
  | cacheStored .. => "registry cache store"
  | stopped => "extension registry stopped"
  | generationStaged .. => "cache generation staged"
  | contributionAdded .. => "contribution added"
  | contributionRemoved .. => "contribution removed"
  | extensionParked .. => "extension parked as orphan"
  | extensionLinked .. => "extension linked"
  | orphansLinked .. => "orphans linked to extension point"
  | extensionUnlinked .. => "extension unlinked"
  | pointUnlinked .. => "extension point unlinked"

def kindText : DeltaKind → String
  | .added => "Added"
  | .removed => "Removed"

def fields : LogRecord → List (String × String)
  | malformedDeclaration c source problem =>
    [("contributor", c.text), ("source", source), ("problem", problem)]
  | duplicatePoint c point => [("contributor", c.text), ("point", point)]
  | listenerFailed filter error => [("filter", Text.quotedOption filter), ("error", error)]
  | notificationProblems delivered failed =>
    [("delivered", toString delivered), ("failed", toString failed)]
  | workerNotStarted error => [("error", error)]
  | cacheNotWritten e => [("error", e.message)]
  | cacheNotCleared e => [("error", e.message)]
  | change kind extension point =>
    [("kind", kindText kind), ("extension", extension.text),
      ("extension_point", Text.quotedOption point)]
  | cacheLoaded path objects contributions =>
    [("path", path.text), ("objects", toString objects),
      ("contributions", toString contributions)]
  | cacheUnusable e => [("error", e.message)]
  | cacheLookup hit => [("hit", toString hit)]
  | opened filled => [("filled_from_cache", toString filled)]
  | anonymousIgnored c => [("contributor", c.text)]
  | eventDropped namespaces => [("namespaces", toString namespaces)]
  | queueDropped dropped => [("dropped", toString dropped)]
  | cacheNotWritable => []
  | cachePublished path generation =>
    [("path", path.text), ("generation", toString generation.toNat)]
  | staleKept path reason => [("path", path.text), ("error", reason.text)]
  | cacheStored generation => [("generation", toString generation.toNat)]
  | stopped => []
  | generationStaged generation path =>
    [("generation", toString generation.toNat), ("path", path.text)]
  | contributionAdded c points extensions namespaces =>
    [("contributor", c.text), ("points", toString points), ("extensions", toString extensions),
      ("namespaces", toString namespaces)]
  | contributionRemoved c removed namespaces =>
    [("contributor", c.text), ("removed", toString removed), ("namespaces", toString namespaces)]
  | extensionParked extension point => [("extension", extension.text), ("point", point)]
  | extensionLinked extension point => [("extension", extension.text), ("point", point)]
  | orphansLinked point adopted => [("point", point), ("adopted", toString adopted)]
  | extensionUnlinked extension point => [("extension", extension.text), ("point", point)]
  | pointUnlinked point orphaned => [("point", point), ("orphaned", toString orphaned)]

end LogRecord

end PluginRegistry
