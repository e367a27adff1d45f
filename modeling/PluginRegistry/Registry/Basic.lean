import PluginRegistry.Cache.Access
import PluginRegistry.Dispatcher
import PluginRegistry.Ingest
import PluginRegistry.Settings
import PluginRegistry.Strategy

/-!
# The registry

A `Registry` is a store with its settings, its listeners and the queue of events for them. Every
operation is a function from a registry to an answer and the registry afterwards; the file system
is passed in and out by the few that touch it.
-/

namespace PluginRegistry

/-- What entitles to administrative operations. Tokens are equal only if they are the same one. -/
structure AccessToken where
  number : Nat
  deriving DecidableEq, Repr

/-- A registry of extension points and extensions. -/
structure Registry where
  settings : Settings
  strategy : Strategy
  /-- Where the cache is; no longer known once the registry was flushed. -/
  cache : Option Cache.Location
  token : Option AccessToken
  objects : Store
  /-- The listeners in the order they were added. -/
  listeners : List ListenerInfo
  dispatcher : Dispatcher
  filledFromCache : Bool
  stopped : Bool
  log : Array LogRecord

namespace Registry

def report (r : Registry) (record : LogRecord) : Registry := { r with log := r.log.push record }

def reportAll (r : Registry) (records : List LogRecord) : Registry :=
  { r with log := r.log ++ records.toArray }

/-! ## Handles -/

/-- The look-up for handles from a source. -/
def resolver (r : Registry) : Resolvers
  | .live => r.objects.get
  | .snapshot id => r.dispatcher.snapshots.resolver id r.objects.get

/-! ## Listeners -/

/-- Adds a listener. One that is already there keeps its filter. -/
def addListener (r : Registry) (listener : Listener) (filter : Option String) : Registry :=
  if r.listeners.any (·.listener = listener) then r
  else { r with listeners := r.listeners ++ [{ listener, filter }] }

def removeListener (r : Registry) (listener : Listener) : Registry :=
  { r with listeners := r.listeners.filter (·.listener ≠ listener) }

/-! ## Access -/

/-- Refuses an operation without the registry's token, if it has one. -/
def checkToken (r : Registry) (token : Option AccessToken) (operation : Operation) :
    Except RegistryError Unit :=
  if r.token.isSome && r.token ≠ token then .error (.unauthorized operation) else .ok ()

/-- Refuses to add to a registry that is not modifiable without its token. -/
def checkWriteAccess (r : Registry) (token : Option AccessToken) (operation : Operation) :
    Except RegistryError Unit :=
  if r.settings.modifiable || (r.token.isSome && r.token = token) then .ok ()
  else .error (.unauthorized operation)

def describe (r : Registry) : String :=
  "ExtensionRegistry \x7b listeners: " ++ toString r.listeners.length ++
    ", filled_from_cache: " ++ toString r.filledFromCache ++
    ", stopped: " ++ toString r.stopped ++ ", .. \x7d"

end Registry

end PluginRegistry
