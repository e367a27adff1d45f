import PluginRegistry.Files.FileSystem
import PluginRegistry.Files.Path

/-!
# File operations

What a path names in a file system, and the operations on what it names. An operation that makes or
removes one entry either does so or changes nothing. `makeDirectories` and `removeTree` consist of
several changes; they give the file system they leave behind also when they are refused half way.

Every operation is done by the owner of all entries: a path is followed only through directories
that are searchable, entries come and go only in directories that are writable, and content is
read and written as the mode of the entry says.
-/

namespace PluginRegistry.FileSystem

/-! ## Following a path -/

/-- Refuses a path that no entry can have. -/
def checkPath (p : Path) : Except FileError Unit :=
  if p.parts.any fun part => part.bytes.contains 0 then .error .zeroCharacter
  else if p.size < 4096 then .ok ()
  else .error .nameTooLong

/-- Follows one part of a path from a place, which has to be a directory. -/
def follow (fs : FileSystem) (place : Place) (part : FileName) : Except FileError Place :=
  match fs.lookup place with
  | none => .error .notFound
  | some (.file ..) => .error .notADirectory
  | some (.directory mode) =>
    if part = "" then .ok place
    else if !mode.isSearchable then .error .permissionDenied
    else if part = "." then .ok place
    else if part = ".." then .ok place.dropLast
    else if part.size ≤ 255 then .ok (place ++ [part])
    else .error .nameTooLong

/-- The place that a path names. Every directory on the way exists, the place itself may not. -/
def resolve (fs : FileSystem) (p : Path) : Except FileError Place := do
  checkPath p
  if p.parts = [↑""] then throw .notFound
  p.parts.foldlM fs.follow []

def stat (fs : FileSystem) (p : Path) : Except FileError FileEntry := do
  let place ← fs.resolve p
  match fs.lookup place with
  | some entry => pure entry
  | none => throw .notFound

def isFile (fs : FileSystem) (p : Path) : Bool :=
  match fs.stat p with
  | .ok (.file ..) => true
  | _ => false

def isDirectory (fs : FileSystem) (p : Path) : Bool :=
  match fs.stat p with
  | .ok (.directory _) => true
  | _ => false

/-- An entry that a path asks for, by its directory and its name there. -/
structure Target where
  parent : Place
  name : FileName
  /-- Whether the path ends with a slash, as only that of a directory may. -/
  slash : Bool
  deriving DecidableEq, Repr

/-- Whether the name is one or two dots, which stand for a directory but are not its name. -/
def Target.isDots (t : Target) : Bool := t.name = "." || t.name = ".."

/-- The entry a path asks for. Its directory exists and is searchable. -/
def target (fs : FileSystem) (p : Path) : Except FileError Target := do
  checkPath p
  match p.split? with
  | none => throw .notFound
  | some (before, name, slash) =>
    let parent ← before.foldlM fs.follow []
    let _ ← fs.follow parent "."
    pure { parent, name, slash }

/-- Refuses to change the entries of a directory that is not writable. -/
def checkWritable (fs : FileSystem) (place : Place) : Except FileError Unit :=
  if fs.allows place Mode.isWritable then .ok () else .error .permissionDenied

/-! ## Reading -/

def read (fs : FileSystem) (p : Path) : Except FileError Bytes := do
  let entry ← fs.stat p
  if !entry.mode.isReadable then throw .permissionDenied
  match entry with
  | .file content _ => pure content
  | .directory _ => throw .isADirectory

/-- The place of a directory whose names may be read. -/
def openDirectory (fs : FileSystem) (p : Path) : Except FileError Place := do
  let place ← fs.resolve p
  match fs.lookup place with
  | some (.directory mode) =>
    if mode.isReadable then pure place else throw .permissionDenied
  | some (.file ..) => throw .notADirectory
  | none => throw .notFound

def readDirectory (fs : FileSystem) (p : Path) : Except FileError (List FileName) := do
  let place ← fs.openDirectory p
  pure (fs.names place)

/-! ## Changing one entry -/

def makeDirectory (fs : FileSystem) (p : Path) : Except FileError FileSystem := do
  let t ← fs.target p
  if t.isDots then throw .alreadyExists
  let place ← fs.follow t.parent t.name
  if (fs.lookup place).isSome then throw .alreadyExists
  fs.checkWritable t.parent
  pure (fs.put place (.directory .ofDirectory))

/-- The place of a file that is to be written, and the mode it has or will have. -/
def openForWriting (fs : FileSystem) (p : Path) : Except FileError (Place × Mode) := do
  let t ← fs.target p
  if t.slash || t.isDots then throw .isADirectory
  let place ← fs.follow t.parent t.name
  match fs.lookup place with
  | some (.directory _) => throw .isADirectory
  | some (.file _ mode) =>
    if mode.isWritable then pure (place, mode) else throw .permissionDenied
  | none =>
    fs.checkWritable t.parent
    pure (place, .ofFile)

/-- Writes a file, replacing the content of one that is there. -/
def writeFile (fs : FileSystem) (p : Path) (content : Bytes) : Except FileError FileSystem := do
  let (place, mode) ← fs.openForWriting p
  pure (fs.put place (.file content mode))

/-- Makes a new file with nothing in it, which nobody but its owner may read or write. -/
def createFile (fs : FileSystem) (p : Path) : Except FileError FileSystem := do
  let t ← fs.target p
  if t.slash || t.isDots then throw .isADirectory
  let place ← fs.follow t.parent t.name
  if (fs.lookup place).isSome then throw .alreadyExists
  fs.checkWritable t.parent
  pure (fs.put place (.file [] .ofPrivate))

def removeFile (fs : FileSystem) (p : Path) : Except FileError FileSystem := do
  let t ← fs.target p
  if t.isDots then throw .isADirectory
  let place ← fs.follow t.parent t.name
  match fs.lookup place with
  | none => throw .notFound
  | some (.file ..) =>
    if t.slash then throw .notADirectory
    fs.checkWritable t.parent
    pure (fs.dropTree place)
  | some (.directory _) =>
    if !t.slash then fs.checkWritable t.parent
    throw .isADirectory

def removeDirectory (fs : FileSystem) (p : Path) : Except FileError FileSystem := do
  let t ← fs.target p
  if t.name = "." then throw .invalidInput
  if t.name = ".." then throw .directoryNotEmpty
  let place ← fs.follow t.parent t.name
  match fs.lookup place with
  | none => throw .notFound
  | some entry =>
    fs.checkWritable t.parent
    match entry with
    | .file .. => throw .notADirectory
    | .directory _ =>
      if fs.names place = [] then pure (fs.dropTree place) else throw .directoryNotEmpty

/-- Gives an entry another path, in one step. A file replaces a file, a directory an empty one. -/
def move (fs : FileSystem) (source target : Path) : Except FileError FileSystem := do
  checkPath source
  checkPath target
  let s ← fs.target source
  let t ← fs.target target
  if s.isDots || t.isDots then throw .busy
  let a ← fs.follow s.parent s.name
  match fs.lookup a with
  | none => throw .notFound
  | some entry =>
    let b ← fs.follow t.parent t.name
    if !entry.isDirectory && (s.slash || t.slash) then throw .notADirectory
    if a.isPrefixOf t.parent then throw .invalidInput
    if b.isPrefixOf s.parent then throw .directoryNotEmpty
    if a = b then pure fs
    else
      fs.checkWritable s.parent
      fs.checkWritable t.parent
      match fs.lookup b with
      | none => pure ()
      | some replaced =>
        if entry.isDirectory && !replaced.isDirectory then throw .notADirectory
        if !entry.isDirectory && replaced.isDirectory then throw .isADirectory
      if entry.isDirectory && s.parent ≠ t.parent then fs.checkWritable a
      if fs.names b = [] then pure (fs.carry a b) else throw .directoryNotEmpty

/-! ## Several changes -/

/-- An operation that is done wholly or not at all, with the file system it leaves behind. -/
def attempt (fs : FileSystem) (result : Except FileError FileSystem) :
    FileSystem × Except FileError Unit :=
  match result with
  | .ok changed => (changed, .ok ())
  | .error e => (fs, .error e)

/-- Makes one directory; it does not matter if it is there already. -/
def ensureDirectory (fs : FileSystem) (p : Path) : FileSystem × Except FileError Unit :=
  match fs.attempt (fs.makeDirectory p) with
  | (fs, .error e) => (fs, if fs.isDirectory p then .ok () else .error e)
  | done => done

/-- Makes the first directory of a list. If nothing is there to make it in, the next ones, in which
it lies, are made before. -/
def makeLineage (fs : FileSystem) : List Path → FileSystem × Except FileError Unit
  | [] => (fs, .ok ())
  | p :: above =>
    match fs.ensureDirectory p with
    | (fs, .error .notFound) =>
      match fs.makeLineage above with
      | (fs, .ok _) => fs.ensureDirectory p
      | refused => refused
    | done => done

/-- Makes a directory and those above it, as far as they are missing. A path that steps back with
two dots has the directory it steps back from made, too. -/
def makeDirectories (fs : FileSystem) (p : Path) : FileSystem × Except FileError Unit :=
  fs.makeLineage p.lineage

/-- Whether everything below a place can be removed. -/
def canEmpty (fs : FileSystem) (place : Place) : Bool :=
  fs.entries.all fun e =>
    !place.isPrefixOf e.1 ||
      match e.2 with
      | .file .. => true
      | .directory mode =>
        mode.isReadable && ((fs.names e.1).isEmpty || (mode.isWritable && mode.isSearchable))

/-- Removes a directory with all it holds: first its content, then itself. -/
def removeTree (fs : FileSystem) (p : Path) : FileSystem × Except FileError Unit :=
  match fs.openDirectory p with
  | .error e => (fs, .error e)
  | .ok place =>
    if fs.canEmpty place then
      let emptied := fs.dropBelow place
      match emptied.attempt (emptied.removeDirectory p) with
      | (fs, .error .notFound) => (fs, .ok ())
      | done => done
    else (fs, .error .permissionDenied)

def remove (fs : FileSystem) (p : Path) : FileSystem × Except FileError Unit :=
  if fs.isDirectory p then fs.removeTree p else fs.attempt (fs.removeFile p)

end PluginRegistry.FileSystem
