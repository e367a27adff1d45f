import PluginRegistry.Cache.Manifest
import PluginRegistry.Files.Operation

/-!
# Generations

A generation of the cache is a directory `gen-` and a number beside the manifest. While it is
written it is a staging directory under another name. `Generation.ofName?` reads the number off a
name: one plus sign and leading zeros are allowed, so several names have the same number. A name
that is not text is that of no generation and of no staging directory, whatever it starts with.
-/

namespace PluginRegistry.Cache.Generation

/-- The value of decimal digits, if there is one at least and nothing else. -/
def decimal? : List Char → Option Nat
  | [] => none
  | digits =>
    if digits.all Char.isDigit then
      some (digits.foldl (fun n c => 10 * n + (c.toNat - '0'.toNat)) 0)
    else none

/-- A number below 2^64 in decimal digits, perhaps after a plus sign. -/
def number? (cs : List Char) : Option UInt64 :=
  let digits := match cs with
    | '+' :: rest => rest
    | _ => cs
  match decimal? digits with
  | some n => if n < UInt64.size then some n.toUInt64 else none
  | none => none

/-- What the name of a generation's directory starts with. -/
def nameStem : String := "gen-"

/-- What the name of a staging directory starts with. -/
def stagingStem : String := ".staging-"

/-- What the name of a manifest that is not yet in place starts with. -/
def temporaryStem : String := ".tmp"

def name (generation : UInt64) : FileName := ↑(nameStem ++ toString generation.toNat)

def ofText? (s : String) : Option UInt64 :=
  if nameStem.toList.isPrefixOf s.toList then number? (s.toList.drop nameStem.length) else none

def ofName? (name : FileName) : Option UInt64 := name.text?.bind ofText?

/-- Whether a name is that of a staging directory. Only names that are text are looked at. -/
def isStaging (name : FileName) : Bool :=
  name.text?.any fun s => stagingStem.toList.isPrefixOf s.toList

def directory (base : Path) (generation : UInt64) : Path := base.child (name generation)

def manifestPath (base : Path) : Path := base.child Section.manifest.entry

/-- The manifest of a cache directory, if it has one. -/
def readManifest (files : FileSystem) (base : Path) : Except Error (Option Manifest) :=
  match files.read (manifestPath base) with
  | .ok bytes => (Manifest.decode bytes).map some
  | .error .notFound => .ok none
  | .error reason => .error (.file (manifestPath base) reason)

/-- The highest generation that the manifest or a name in the directory has; 0 if none has. -/
def latest (files : FileSystem) (base : Path) (names : List FileName) : UInt64 :=
  let live := match readManifest files base with
    | .ok (some m) => m.generation
    | _ => 0
  (names.filterMap ofName?).foldl max live

/-- Whether a directory's entry is left over once `keep` is the live generation. -/
def isStale (keep : Option UInt64) (name : FileName) : Bool :=
  match ofName? name with
  | some generation => some generation ≠ keep
  | none => isStaging name

end PluginRegistry.Cache.Generation
