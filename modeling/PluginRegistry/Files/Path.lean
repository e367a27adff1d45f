import PluginRegistry.Files.Name

/-!
# Paths

A `Path` is the list of its parts, as they stand between the slashes: empty parts and dots are
kept, because the path is printed as it was given. A part is a string of bytes like the name it
may be. What a path names in a file system is `FileSystem.resolve`.
-/

namespace PluginRegistry

/-- A path as given, split at its slashes. -/
structure Path where
  parts : List FileName
  deriving DecidableEq, Repr, Inhabited

namespace Path

def splitSlashes : List Char → List (List Char)
  | [] => [[]]
  | c :: cs =>
    match splitSlashes cs with
    | [] => [[c]]
    | part :: parts => if c = '/' then [] :: part :: parts else (c :: part) :: parts

def ofText (s : String) : Path :=
  ⟨(splitSlashes s.toList).map fun part => .ofText (.ofList part)⟩

/-- The parts of a directory's path; a slash at its end adds nothing. -/
def directoryParts (p : Path) : List FileName :=
  if p.parts.getLast? = some ↑"" then p.parts.dropLast else p.parts

/-- The entry `name` of a directory. -/
def child (p : Path) (name : FileName) : Path := ⟨p.directoryParts ++ [name]⟩

def join (p below : Path) : Path := ⟨p.directoryParts ++ below.parts⟩

/-- Leaves out empty parts and dots in front. -/
def trim (parts : List FileName) : List FileName :=
  parts.dropWhile fun part => part = "" || part = "."

def text (p : Path) : String := String.intercalate "/" (p.parts.map FileName.shown)

def size (p : Path) : Nat :=
  (p.parts.map FileName.size).foldr (· + ·) 0 + (p.parts.length - 1)

/-- The last part that is not empty, the parts before it, and whether a slash stands behind it. -/
def split? (p : Path) : Option (List FileName × FileName × Bool) :=
  match p.parts.reverse.dropWhile fun (part : FileName) => part = "" with
  | [] => none
  | name :: before => some (before.reverse, name, p.parts.getLast? = some ↑"")

/-- The directories above a path, given its parts from the last to the first. An empty part or a
dot is no step upwards, two dots are one. -/
def above : List FileName → List Path
  | [] => []
  | part :: parts =>
    if part = "" || part = "." then above parts else ⟨(trim parts).reverse⟩ :: above parts

/-- A path and the directories above it, from the inside out. -/
def lineage (p : Path) : List Path := p :: above p.parts.reverse

end Path

end PluginRegistry
