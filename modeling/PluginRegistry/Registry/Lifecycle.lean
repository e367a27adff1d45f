import PluginRegistry.Registry.Basic

/-!
# Opening, notifying and stopping

A registry starts from its cache, if that is usable, or empty. Between writes its queue is worked
off in small steps: `step?` does what needs no one outside, `call?` says which listener of the host
to call, and `reportCall` takes down how that ended. Stopping ends the deliveries and writes the
store to the cache if it changed.

The host is told at two moments, and may use the registry then: after `start`, before `opened`;
and between `beginStop` and `finishStop`.
-/

namespace PluginRegistry.Registry

/-! ## Opening -/

/-- What is read from the cache when a registry starts, with what is logged about it. -/
def loadCache (digest : DigestFunction) (files : FileSystem) (settings : Settings)
    (fingerprint : UInt64) : List LogRecord × Option Store :=
  match settings.useCache, settings.location? with
  | true, some location =>
    let (records, result) := location.loadStore digest files fingerprint
    let (records, store) := match result with
      | .ok store => (records, some store)
      | .error e => (records ++ [LogRecord.cacheUnusable e], none)
    (if settings.debug then records ++ [LogRecord.cacheLookup store.isSome] else records, store)
  | _, _ => ([], none)

/-- A registry before the host is told about it. -/
def start (digest : DigestFunction) (files : FileSystem) (settings : Settings)
    (strategy : Strategy) (token : Option AccessToken) : Registry :=
  let (records, store) := loadCache digest files settings strategy.namespaces.fingerprint
  let r : Registry :=
    { settings, strategy, token
      cache := settings.location?
      objects := store.getD .empty
      listeners := []
      dispatcher := .empty
      filledFromCache := store.isSome
      stopped := false
      log := records.toArray }
  if settings.debugEvents then r.addListener .eventLog none else r

/-- A registry once the host was told. -/
def opened (r : Registry) : Registry := r.report (.opened r.filledFromCache)

/-! ## Delivering events -/

/-- What the built-in listener logs for an event. -/
def changeRecords (r : Registry) (event : ChangeEvent) : List LogRecord :=
  event.views.map fun v =>
    .change v.delta.kind v.delta.extension
      (v.point.uniqueId r.resolver).toOption

def reportCall (r : Registry) (result : CallResult) : Registry :=
  match r.dispatcher.call? with
  | none => r
  | some (info, _) =>
    let r := match result.error? with
      | none => r
      | some error => r.report (.listenerFailed info.filter error)
    { r with dispatcher := r.dispatcher.report result }

/-- The listener of the host that is to be called next, with its event. -/
def call? (r : Registry) : Option (Nat × ChangeEvent) :=
  match r.dispatcher.call? with
  | some ({ listener := .host key, .. }, event) => some (key, event)
  | _ => none

/-- A step of the worker that needs no listener of the host: it calls the built-in listener, is
done with an event, or takes the next one. -/
def step? (r : Registry) : Option Registry :=
  match r.dispatcher.call? with
  | some ({ listener := .eventLog, .. }, event) =>
    some ((r.reportAll (r.changeRecords event)).reportCall .success)
  | some ({ listener := .host _, .. }, _) => none
  | none =>
    match r.dispatcher.finish? with
    | some (delivery, dispatcher) =>
      let r := { r with dispatcher }
      some (if delivery.isOk then r
        else r.report (.notificationProblems delivery.delivered delivery.failures.length))
    | none => r.dispatcher.take?.map fun dispatcher => { r with dispatcher }

/-! ## Stopping -/

/-- Refuses all writes from here on. The answer is whether the registry was still running. -/
def beginStop (r : Registry) (token : Option AccessToken) : Except RegistryError Bool × Registry :=
  match r.checkToken token .stop with
  | .error e => (.error e, r)
  | .ok _ => (.ok (!r.stopped), { r with stopped := true })

def stopDispatcher (r : Registry) : Registry :=
  let dropped := r.dispatcher.pending
  let r := if dropped = 0 then r else r.report (.queueDropped dropped)
  { r with dispatcher := r.dispatcher.stop }

/-- Writes the store to the cache if it changed and the cache can be written. -/
def flush (digest : DigestFunction) (chance : Cache.Chance) (r : Registry) (files : FileSystem) :
    Registry × FileSystem :=
  match r.cache with
  | none => (r, files)
  | some location =>
    -- whatever comes of it, there is nothing to write a second time
    let r := { r with cache := none }
    match location.prepare files with
    | (false, files) => (r.report .cacheNotWritable, files)
    | (true, files) =>
      if !r.objects.dirty then (r, files)
      else
        let image :=
          Cache.Image.encode r.objects.toParts r.strategy.namespaces.fingerprint
        let (files, records, result) := location.store digest chance files image
        let r := r.reportAll records
        match result with
        | .ok generation =>
          let r := { r with objects := { r.objects with dirty := false } }
          (if r.settings.debug then r.report (.cacheStored generation) else r, files)
        | .error e => (r.report (.cacheNotWritten e), files)

/-- Ends the deliveries and flushes, once the host was told. -/
def finishStop (digest : DigestFunction) (chance : Cache.Chance) (r : Registry)
    (files : FileSystem) : Registry × FileSystem :=
  let (r, files) := r.stopDispatcher.flush digest chance files
  (r.report .stopped, files)

/-- Takes the published cache away, so that the next registry starts empty. The answer is whether
there is a cache to write and nothing stood in the way. -/
def clearCache (chance : Cache.Chance) (r : Registry) (files : FileSystem) :
    Bool × Registry × FileSystem :=
  match r.cache with
  | none => (false, r, files)
  | some location =>
    let (files, records, result) := location.clear chance files
    let r := r.reportAll records
    match result with
    | .ok _ => (true, r, files)
    | .error e => (false, r.report (.cacheNotCleared e), files)

end PluginRegistry.Registry
