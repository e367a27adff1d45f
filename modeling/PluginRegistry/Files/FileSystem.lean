import PluginRegistry.Files.Name

/-!
# File systems

A `FileSystem` is a value: the entries that exist, each with its place, which is the list of names
that lead to it from the root. `lookup` is the view that everything else is stated in: writing
changes one place (`lookup_put`), removing a tree clears the places below one
(`lookup_dropTree`), and a move carries the places below one to another in a single step.
-/

namespace PluginRegistry

/-- How a device fails. -/
inductive DeviceError
  | inputOutput
  | noSpace
  | quotaExceeded
  | readOnly
  /-- What is asked of it cannot be done, as syncing a directory on some devices. -/
  | invalid
  deriving DecidableEq, Repr

/-- Why a file operation is refused. -/
inductive FileError
  | notFound
  | notADirectory
  | isADirectory
  | alreadyExists
  | directoryNotEmpty
  | permissionDenied
  /-- A name has more than 255 bytes or a path more than 4095. -/
  | nameTooLong
  /-- A path with a zero character names nothing. -/
  | zeroCharacter
  | invalidInput
  /-- A dot stands where an entry has to be named. -/
  | busy
  | device (e : DeviceError)
  deriving DecidableEq, Repr

def DeviceError.text : DeviceError → String
  | .inputOutput => "Input/output error (os error 5)"
  | .noSpace => "No space left on device (os error 28)"
  | .quotaExceeded => "Disk quota exceeded (os error 122)"
  | .readOnly => "Read-only file system (os error 30)"
  | .invalid => "Invalid argument (os error 22)"

def DeviceError.code : DeviceError → String
  | .inputOutput => "Uncategorized"
  | .noSpace => "StorageFull"
  | .quotaExceeded => "QuotaExceeded"
  | .readOnly => "ReadOnlyFilesystem"
  | .invalid => "InvalidInput"

def FileError.text : FileError → String
  | .notFound => "No such file or directory (os error 2)"
  | .notADirectory => "Not a directory (os error 20)"
  | .isADirectory => "Is a directory (os error 21)"
  | .alreadyExists => "File exists (os error 17)"
  | .directoryNotEmpty => "Directory not empty (os error 39)"
  | .permissionDenied => "Permission denied (os error 13)"
  | .nameTooLong => "File name too long (os error 36)"
  | .zeroCharacter => "file name contained an unexpected NUL byte"
  | .invalidInput => "Invalid argument (os error 22)"
  | .busy => "Device or resource busy (os error 16)"
  | .device e => e.text

def FileError.code : FileError → String
  | .notFound => "NotFound"
  | .notADirectory => "NotADirectory"
  | .isADirectory => "IsADirectory"
  | .alreadyExists => "AlreadyExists"
  | .directoryNotEmpty => "DirectoryNotEmpty"
  | .permissionDenied => "PermissionDenied"
  | .nameTooLong => "InvalidFilename"
  | .zeroCharacter => "InvalidInput"
  | .invalidInput => "InvalidInput"
  | .busy => "ResourceBusy"
  | .device e => e.code

/-! ## Modes -/

/-- Who may do what with an entry, three bits each for its owner, its group and all others. -/
structure Mode where
  bits : Nat
  deriving DecidableEq, Repr

namespace Mode

def ofDirectory : Mode := ⟨0o755⟩

def ofFile : Mode := ⟨0o644⟩

/-- The mode of a new file that is its owner's alone. -/
def ofPrivate : Mode := ⟨0o600⟩

/-- Whether the owner may read a file's content or a directory's names. -/
def isReadable (m : Mode) : Bool := m.bits.testBit 8

/-- Whether the owner may change a file's content or a directory's entries. -/
def isWritable (m : Mode) : Bool := m.bits.testBit 7

/-- Whether the owner may pass through a directory to its entries. -/
def isSearchable (m : Mode) : Bool := m.bits.testBit 6

/-- Whether nobody may write, neither the owner nor anyone else. -/
def isReadOnly (m : Mode) : Bool := !(m.bits.testBit 7 || m.bits.testBit 4 || m.bits.testBit 1)

end Mode

/-! ## Entries -/

/-- The names that lead from the root to an entry. -/
abbrev Place := List FileName

/-- What stands at a place. -/
inductive FileEntry
  | file (content : Bytes) (mode : Mode)
  | directory (mode : Mode)
  deriving DecidableEq, Repr

namespace FileEntry

def mode : FileEntry → Mode
  | file _ mode => mode
  | directory mode => mode

def isDirectory : FileEntry → Bool
  | file .. => false
  | directory _ => true

end FileEntry

/-- All entries of a file system, the root directory among them. -/
structure FileSystem where
  entries : List (Place × FileEntry)
  deriving Repr

namespace FileSystem

/-- A root directory with nothing in it. -/
def empty : FileSystem := ⟨[([], .directory .ofDirectory)]⟩

def lookup (fs : FileSystem) (place : Place) : Option FileEntry := fs.entries.lookup place

def names (fs : FileSystem) (place : Place) : List FileName :=
  fs.entries.filterMap fun e =>
    if e.1.length = place.length + 1 && place.isPrefixOf e.1 then e.1.getLast? else none

/-- Whether the mode of what stands at a place allows something. -/
def allows (fs : FileSystem) (place : Place) (action : Mode → Bool) : Bool :=
  (fs.lookup place).any fun entry => action entry.mode

/-! ## Changes by place -/

/-- Puts an entry at a place, over whatever was there. -/
def put (fs : FileSystem) (place : Place) (entry : FileEntry) : FileSystem :=
  ⟨(place, entry) :: fs.entries.filter fun e => e.1 ≠ place⟩

/-- Removes a place and everything below it. -/
def dropTree (fs : FileSystem) (place : Place) : FileSystem :=
  ⟨fs.entries.filter fun e => !place.isPrefixOf e.1⟩

/-- Removes everything below a place. -/
def dropBelow (fs : FileSystem) (place : Place) : FileSystem :=
  ⟨fs.entries.filter fun e => !(place.isPrefixOf e.1 && e.1 ≠ place)⟩

/-- Carries a place and everything below it to `target`, over whatever was there. -/
def carry (fs : FileSystem) (source target : Place) : FileSystem :=
  ⟨(fs.entries.filter fun e => source.isPrefixOf e.1 || !target.isPrefixOf e.1).map fun e =>
    if source.isPrefixOf e.1 then (target ++ e.1.drop source.length, e.2) else e⟩

/-! ## What a change does to the view -/

private theorem lookup_filter {places : List (Place × FileEntry)} {keep : Place → Bool}
    (q : Place) : (places.filter fun e => keep e.1).lookup q =
      if keep q then places.lookup q else none := by
  induction places with
  | nil => simp
  | cons e es ih =>
    obtain ⟨p, x⟩ := e
    by_cases hk : keep p
    · by_cases hq : q = p
      · subst hq; simp [hk]
      · have hb : (q == p) = false := by simpa using hq
        simp [hk, List.lookup_cons, hb, ih]
    · by_cases hq : q = p
      · subst hq; simp [hk, ih]
      · have hb : (q == p) = false := by simpa using hq
        simp [hk, List.lookup_cons, hb, ih]

theorem lookup_put (fs : FileSystem) (p : Place) (entry : FileEntry) (q : Place) :
    (fs.put p entry).lookup q = if q = p then some entry else fs.lookup q := by
  unfold put lookup
  by_cases h : q = p
  · subst h; simp
  · have hb : (q == p) = false := by simpa using h
    rw [List.lookup_cons, hb, @lookup_filter _ (fun x => decide (x ≠ p)) q]
    simp [h]

theorem lookup_dropTree (fs : FileSystem) (p q : Place) :
    (fs.dropTree p).lookup q = if p.isPrefixOf q then none else fs.lookup q := by
  unfold dropTree lookup
  rw [@lookup_filter _ (fun x => !p.isPrefixOf x) q]
  cases p.isPrefixOf q <;> simp

theorem lookup_dropBelow (fs : FileSystem) (p q : Place) :
    (fs.dropBelow p).lookup q = if p.isPrefixOf q && q ≠ p then none else fs.lookup q := by
  unfold dropBelow lookup
  rw [@lookup_filter _ (fun x => !(p.isPrefixOf x && x ≠ p)) q]
  cases p.isPrefixOf q <;> by_cases h : q = p <;> simp [h]

end FileSystem

end PluginRegistry
