import PluginRegistry.Cache.Section
import PluginRegistry.Files.FileSystem
import PluginRegistry.Files.Path
import PluginRegistry.Object

/-!
# What can be wrong with a cache

Each way in which a cache cannot be read or written is a constructor; `Corruption` holds the ways
in which bytes decode but do not fit together. The wording is in `Corruption.text` and
`Error.message`.
-/

namespace PluginRegistry.Cache

/-- How decoded sections fail to describe a store. -/
inductive Corruption
  | sectionMissing
  /-- A table entry names bytes behind the end of the main section. -/
  | entryOutside (id : ObjectId)
  /-- The table and the main section disagree on an object's kind. -/
  | wrongKind (id : ObjectId)
  /-- The strings of a record do not exist or belong to an earlier record. -/
  | stringsMissing (id : ObjectId)
  | stringsOfAnotherKind (id : ObjectId)
  /-- The keys and values of an element do not pair up. -/
  | oddProperties (id : ObjectId)
  /-- The counts of a contribution do not match its length. -/
  | badContribution (contributor : ContributorId)
  | idOutOfRange (id : ObjectId)
  | idTwice (id : ObjectId)
  /-- A reference to an object that does not exist or is of another kind. -/
  | notLive (id : ObjectId) (kind : ObjectKind)
  | noDigest (s : Section)
  | manifestMissing
  | noCache
  deriving DecidableEq, Repr

def Corruption.text : Corruption → String
  | .sectionMissing => "section missing"
  | .entryOutside id => "entry " ++ toString id.index ++ " points past the main section"
  | .wrongKind id => "record " ++ toString id.index ++ " has the wrong kind"
  | .stringsMissing id => "record " ++ id.text ++ " references missing strings"
  | .stringsOfAnotherKind id => "record " ++ id.text ++ " has strings of another kind"
  | .oddProperties id => "record " ++ id.text ++ " has an odd property array"
  | .badContribution c => "contributor " ++ c.text ++ " has a bad header"
  | .idOutOfRange id => "id " ++ id.text ++ " is out of range"
  | .idTwice id => "id " ++ id.text ++ " appears twice"
  | .notLive id kind => id.text ++ " is not a live " ++ kind.text
  | .noDigest s => "no digest for " ++ s.name
  | .manifestMissing => "missing"
  | .noCache => "no cache present"

/-- Why a cache was not read or not written. -/
inductive Error
  | file (path : Path) (reason : FileError)
  | decode (s : Section) (problem : Wire.Problem)
  | badHeader (s : Section)
  | versionMismatch (s : Section) (found : UInt32)
  | fingerprintMismatch (expected found : UInt64)
  | checksumMismatch (s : Section)
  | corrupt (s : Section) (how : Corruption)
  | readOnly
  deriving DecidableEq, Repr

/-- A number in base sixteen, after `0x`. -/
def hexText (n : Nat) : String := "0x" ++ String.ofList (Nat.toDigits 16 n)

def Error.code : Error → String
  | .file _ _ => "Io"
  | .decode _ _ => "Decode"
  | .badHeader _ => "BadMagic"
  | .versionMismatch _ _ => "VersionMismatch"
  | .fingerprintMismatch _ _ => "FingerprintMismatch"
  | .checksumMismatch _ => "ChecksumMismatch"
  | .corrupt _ _ => "Corrupt"
  | .readOnly => "ReadOnly"

def Error.message : Error → String
  | .file path reason => "cache I/O failed at " ++ path.text ++ ": " ++ reason.text
  | .decode s problem => "failed to decode cache section " ++ s.name ++ ": " ++ problem.text
  | .badHeader s => "cache section " ++ s.name ++ " has a bad header"
  | .versionMismatch s found =>
    "cache section " ++ s.name ++ " has schema version " ++ toString found.toNat
  | .fingerprintMismatch expected found =>
    "cache fingerprint mismatch: expected " ++ hexText expected.toNat ++
      ", found " ++ hexText found.toNat
  | .checksumMismatch s => "cache section " ++ s.name ++ " does not match its manifest checksum"
  | .corrupt s how => "cache section " ++ s.name ++ " is corrupt: " ++ how.text
  | .readOnly => "cache location is read-only"

end PluginRegistry.Cache
