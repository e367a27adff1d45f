import PluginRegistry.Cache.Location
import PluginRegistry.Log

/-!
# Reading and writing a cache

The accesses to a cache `Location` with what they report to the log: reading the store back,
publishing an image and taking a published one away.
-/

namespace PluginRegistry.Cache

/-- What a publication in a directory reports. -/
def Publication.log (p : Publication) (base : Path) : List LogRecord :=
  p.staged.toList.map (fun generation =>
    .generationStaged generation (Generation.directory base generation)) ++
  p.refused.map (fun (path, reason) => .staleKept path reason) ++
  match p.result with
  | .ok generation => [.cachePublished base generation]
  | .error _ => []

namespace Location

def loadStore (digest : DigestFunction) (l : Location) (files : FileSystem) (fingerprint : UInt64) :
    List LogRecord × Except Error Store :=
  match l.load digest files fingerprint with
  | .ok (base, parts) =>
    ([.cacheLoaded base parts.objects.length parts.contributions.length],
      .ok (Store.ofParts parts))
  | .error e => ([], .error e)

/-- Publishes an image in the primary directory and gives the number of its generation. -/
def store (digest : DigestFunction) (chance : Chance) (l : Location) (files : FileSystem)
    (image : Image) : FileSystem × List LogRecord × Except Error UInt64 :=
  match l.target? with
  | none => (files, [], .error .readOnly)
  | some base =>
    let p := publish digest chance files base image
    (p.files, p.log base, p.result)

/-- Takes the cache in the primary directory away. -/
def clear (chance : Chance) (l : Location) (files : FileSystem) :
    FileSystem × List LogRecord × Except Error Unit :=
  match l.target? with
  | none => (files, [], .error .readOnly)
  | some base =>
    let (files, refused, result) := unpublish chance files base
    (files, refused.map fun (path, reason) => .staleKept path reason, result)

end Location

end PluginRegistry.Cache
