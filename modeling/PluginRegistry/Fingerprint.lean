import PluginRegistry.Digest.Basic
import PluginRegistry.Wire.Value

/-!
# Fingerprints of files

A cache belongs to a state of the host, for which the host gives a number. `fingerprint` computes
one from the files that declare things: it changes when one of them is changed, appears, disappears
or moves in the list. The content of the files is not read, only their `FileStamp`. A file is named
by a path, of which only the bytes matter (`PathBytes`).
-/

namespace PluginRegistry

/-- Length and time of a file. -/
structure FileStamp where
  length : UInt64
  /-- The time of the last change, in nanoseconds since the beginning of 1970. -/
  modified : Int
  deriving DecidableEq, Repr

/-- Eight bytes for the length and sixteen for the time. Times before 1970 are all the same. -/
def FileStamp.bytes (s : FileStamp) : Bytes :=
  Wire.littleEndian 8 s.length.toNat ++ Wire.littleEndian 16 s.modified.toNat

/-- What can stand for a path, by the bytes that the operating system is given. -/
class PathBytes (α : Type) where
  bytes : α → Bytes

instance : PathBytes String := ⟨fun path => path.toUTF8.data.toList⟩

/-- A path need not be text. -/
instance : PathBytes Bytes := ⟨id⟩

section

variable {α : Type} [PathBytes α]

/-- What a path adds to a fingerprint: its bytes, a zero and, if there is such a file, its stamp. -/
def stampBytes (stamp : α → Option FileStamp) (path : α) : Bytes :=
  PathBytes.bytes path ++ [0] ++
    match stamp path with
    | some s => s.bytes
    | none => []

/-- The bytes that stand for the state of files in an order. -/
def stateBytes (stamp : α → Option FileStamp) (paths : List α) : Bytes :=
  paths.flatMap (stampBytes stamp)

/-- The first eight bytes of a digest as a number. -/
def Digest.head (d : Digest) : UInt64 := (Wire.ofLittleEndian (d.bytes.take 8)).toUInt64

/-- The fingerprint of files in an order: the first eight bytes of a digest. -/
def fingerprint (digest : DigestFunction) (stamp : α → Option FileStamp) (paths : List α) :
    UInt64 :=
  (digest (stateBytes stamp paths)).head

end

end PluginRegistry
