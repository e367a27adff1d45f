import PluginRegistry.Cache.Generation

/-!
# Steps on the file system and what is left to chance

The changes that are made to a cache directory consist of steps. What becomes of one is up to the
file system, as `FileStep.run` says, and to the device, which may refuse any of them. That and the
other things that are not up to the program are a `Chance`: the names that are drawn for new
entries and the order in which a directory gives its names.
-/

namespace PluginRegistry.Cache

/-- One operation on the way to a published generation, or to none. -/
inductive FileStep
  /-- Makes a new directory with this name. -/
  | makeDirectory (base : Path) (name : FileName)
  /-- Makes a new file with this name. -/
  | createIn (base : Path) (name : FileName)
  /-- Makes an empty file, or empties one that is there. -/
  | create (p : Path)
  | write (p : Path) (content : Bytes)
  /-- Waits until the content of a file is on the device. -/
  | sync (p : Path)
  /-- Waits until the entries of a directory are on the device. -/
  | syncDirectory (p : Path)
  | move (source target : Path)
  | removeFile (p : Path)
  | removeTree (p : Path)
  deriving DecidableEq, Repr

namespace FileStep

/-- The file system after a step. Only a removal that is refused may have changed anything. -/
def run (files : FileSystem) : FileStep → FileSystem × Except FileError Unit
  | .makeDirectory base name => files.attempt (files.makeDirectory (base.child name))
  | .createIn base name => files.attempt (files.createFile (base.child name))
  | .create p => files.attempt (files.writeFile p [])
  | .write p content => files.attempt (files.writeFile p content)
  | .sync _ => (files, .ok ())
  | .syncDirectory p => (files, (files.openDirectory p).map fun _ => ())
  | .move source target => files.attempt (files.move source target)
  | .removeFile p => files.attempt (files.removeFile p)
  | .removeTree p => files.removeTree p

/-- The path that a refused step is reported for. A new entry is reported for its directory. -/
def subject : FileStep → Path
  | .makeDirectory base _ => base
  | .createIn base _ => base
  | .create p => p
  | .write p _ => p
  | .sync p => p
  | .syncDirectory p => p
  | .move _ target => target
  | .removeFile p => p
  | .removeTree p => p

/-- The file system after a step that broke off. What it was to write may be there in part. -/
def breakOff (files : FileSystem) (written : Nat) : FileStep → FileSystem
  | .write p content => (files.attempt (files.writeFile p (content.take written))).1
  | _ => files

end FileStep

/-- What a step is taken for. -/
inductive Phase
  /-- The directory of a generation is put in place. -/
  | stage
  /-- The manifest is replaced, or taken away. -/
  | commit
  /-- What a refused step leaves half done is taken back. -/
  | undo
  /-- What is left over is removed. -/
  | clean
  deriving DecidableEq, Repr

/-- A device's answer when it does not do what it is asked for. -/
structure Refusal where
  reason : DeviceError
  /-- How many bytes were written before. -/
  written : Nat := 0
  deriving DecidableEq, Repr

/-- What is not up to the program while it works on a cache directory. -/
structure Chance where
  /-- The letters that are drawn for a new name, behind its stem. -/
  letters : String → List FileName → String
  /-- A new name is none of those that are taken. -/
  fresh (stem : String) (taken : List FileName) :
    .ofText (stem ++ letters stem taken) ∉ taken
  /-- The order in which a directory gives its names. -/
  order : List FileName → List FileName
  order_perm (names : List FileName) : (order names).Perm names
  /-- The steps that the device refuses. -/
  refuses : Phase → FileStep → Option Refusal

namespace Chance

/-- A new name with this stem. -/
def name (chance : Chance) (stem : String) (taken : List FileName) : FileName :=
  ↑(stem ++ chance.letters stem taken)

/-- The file system after a step that the device may refuse. -/
def take (chance : Chance) (phase : Phase) (files : FileSystem) (step : FileStep) :
    FileSystem × Except FileError Unit :=
  match chance.refuses phase step with
  | none => step.run files
  | some refusal => (step.breakOff files refusal.written, .error (.device refusal.reason))

/-- Takes steps up to the first that is refused. -/
def takeAll (chance : Chance) (phase : Phase) (files : FileSystem) :
    List FileStep → FileSystem × Except Error Unit
  | [] => (files, .ok ())
  | step :: steps =>
    match chance.take phase files step with
    | (files, .ok _) => chance.takeAll phase files steps
    | (files, .error reason) => (files, .error (.file step.subject reason))

/-- Takes every step that is not refused. The refused ones are returned. -/
def takeEach (chance : Chance) (phase : Phase) (files : FileSystem) :
    List FileStep → FileSystem × List (Path × FileError)
  | [] => (files, [])
  | step :: steps =>
    match chance.take phase files step with
    | (files, .ok _) => chance.takeEach phase files steps
    | (files, .error reason) =>
      let (files, refused) := chance.takeEach phase files steps
      (files, (step.subject, reason) :: refused)

/-- Takes steps and then syncs the directory they were made for. If one of the steps is refused,
`undo` takes back what is half done; if the sync is refused, nothing is taken back. -/
def takeOrUndo (chance : Chance) (phase : Phase) (files : FileSystem) (steps : List FileStep)
    (undo : FileStep) (base : Path) : FileSystem × Except Error Unit :=
  match chance.takeAll phase files steps with
  | (files, .error e) => ((chance.take .undo files undo).1, .error e)
  | (files, .ok _) => chance.takeAll phase files [.syncDirectory base]

/-! ## A plain chance -/

/-- The most bytes that one of the names has. -/
def longest (names : List FileName) : Nat := (names.map FileName.size).foldr max 0

theorem size_le_longest {names : List FileName} {name : FileName} (h : name ∈ names) :
    name.size ≤ longest names := by
  induction names with
  | nil => cases h
  | cons other names ih =>
    change _ ≤ max other.size (longest names)
    rcases List.mem_cons.1 h with rfl | h
    · omega
    · have := ih h
      omega

def zeros (n : Nat) : String := String.ofList (List.replicate n '0')

theorem utf8ByteSize_zeros (n : Nat) : (zeros n).utf8ByteSize = n := by
  induction n with
  | zero => rfl
  | succ n ih =>
    have hcons : zeros (n + 1) = zeros 1 ++ zeros n := by simp [zeros, List.replicate_succ]
    have hone : (zeros 1).utf8ByteSize = 1 := by decide
    rw [hcons, String.utf8ByteSize_append, ih, hone, Nat.add_comm]

/-- Six zeros, or more than any name has bytes. -/
def zerosBehind (stem : String) (taken : List FileName) : String :=
  if .ofText (stem ++ zeros 6) ∈ taken then zeros (longest taken + 1) else zeros 6

/-- New names with zeros, directories as they are, and nothing is refused. -/
def plain : Chance where
  letters := zerosBehind
  fresh stem taken := by
    unfold zerosBehind
    split
    case isTrue =>
      intro hmem
      have hle := size_le_longest hmem
      rw [FileName.size_ofText, String.utf8ByteSize_append, utf8ByteSize_zeros] at hle
      omega
    case isFalse h => exact h
  order := id
  order_perm _ := .refl _
  refuses _ _ := none

end Chance

end PluginRegistry.Cache
