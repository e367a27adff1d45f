import PluginRegistry.Cache.Publish

/-!
# Where a cache is kept

A `Location` has a primary directory, where a cache is written, and an alternative one, which is
only read. `Location.load` reads from the first of the two that has a manifest, and gives either
parts that passed every check or an error.
-/

namespace PluginRegistry.Cache

/-- The directories of a cache. -/
structure Location where
  primary : Option Path
  alternative : Option Path
  readOnly : Bool
  deriving DecidableEq, Repr

/-- The sections of the generation that a manifest names, each checked against its entry. -/
def readGeneration (digest : DigestFunction) (files : FileSystem) (base : Path)
    (manifest : Manifest) : Except Error Image := do
  let sections ← Section.data.mapM fun s => do
    let path := (Generation.directory base manifest.generation).child s.entry
    match files.read path with
    | .ok bytes =>
      manifest.verify digest s bytes
      pure (s, bytes)
    | .error reason => throw (.file path reason)
  pure { fingerprint := manifest.fingerprint, sections }

def loadParts (digest : DigestFunction) (files : FileSystem) (base : Path) (fingerprint : UInt64) :
    Except Error Parts := do
  match ← Generation.readManifest files base with
  | none => throw (.corrupt .manifest .manifestMissing)
  | some manifest =>
    if manifest.fingerprint ≠ fingerprint then
      throw (.fingerprintMismatch fingerprint manifest.fingerprint)
    let image ← readGeneration digest files base manifest
    image.decode fingerprint

namespace Location

/-- The first directory that holds a manifest. -/
def probe (l : Location) (files : FileSystem) : Option Path :=
  (l.primary.toList ++ l.alternative.toList).find? fun base =>
    files.isFile (Generation.manifestPath base)

/-- The cached parts and the directory they come from. -/
def load (digest : DigestFunction) (l : Location) (files : FileSystem) (fingerprint : UInt64) :
    Except Error (Path × Parts) :=
  match l.probe files with
  | none => .error (.corrupt .manifest .noCache)
  | some base => (loadParts digest files base fingerprint).map (base, ·)

/-- The directory that may be written. -/
def target? (l : Location) : Option Path := if l.readOnly then none else l.primary

/-- Makes the primary directory if it is missing and says whether it can be written. -/
def prepare (l : Location) (files : FileSystem) : Bool × FileSystem :=
  match l.target? with
  | none => (false, files)
  | some base =>
    match files.makeDirectories base with
    | (files, .error _) => (false, files)
    | (files, .ok _) =>
      match files.stat base with
      | .ok entry => (!entry.mode.isReadOnly, files)
      | .error _ => (false, files)

end Location

end PluginRegistry.Cache
