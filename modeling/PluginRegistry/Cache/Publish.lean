import PluginRegistry.Cache.Step

/-!
# Publishing a generation

A generation becomes live in steps that are laid out once its cache directory exists and before
the first of them is taken: the sections go into a staging directory, the directory gets its name
in one move, and the manifest that names it replaces the old one in another. Whatever the steps
leave behind when they stop half way, the manifest names a generation that is complete. Only then
old generations are removed. The cache directory is synced behind each of the two moves; a sync
that is refused does not take the move back.
-/

namespace PluginRegistry.Cache

/-- The layout of one publication. -/
structure Plan where
  base : Path
  generation : UInt64
  /-- The name under which the sections are written first. -/
  staging : FileName
  /-- The name under which the manifest is written first. -/
  temporary : FileName
  manifest : Manifest
  sections : List (Section × Bytes)
  /-- Entries of the directory that are left over afterwards. -/
  stale : List FileName

namespace Plan

/-- Lays out the publication of an image in a directory that holds these names. Its generation is
higher than all there. -/
def make (digest : DigestFunction) (chance : Chance) (files : FileSystem) (base : Path)
    (names : List FileName) (image : Image) : Plan :=
  let generation := Generation.latest files base names + 1
  { base
    generation
    staging := chance.name Generation.stagingStem names
    temporary := chance.name Generation.temporaryStem names
    manifest := Manifest.ofImage digest generation image
    sections := image.sections
    stale := (chance.order names).filter (Generation.isStale (some generation)) }

/-- Where the sections are written first. -/
def stagingPath (plan : Plan) : Path := plan.base.child plan.staging

/-- Where the manifest is written first. -/
def temporaryPath (plan : Plan) : Path := plan.base.child plan.temporary

/-- The steps that put content on the device. -/
def writeSteps (p : Path) (content : Bytes) : List FileStep :=
  [.create p, .write p content, .sync p]

def fillSteps (plan : Plan) : List FileStep :=
  .makeDirectory plan.base plan.staging ::
    plan.sections.flatMap fun (s, bytes) => writeSteps (plan.stagingPath.child s.entry) bytes

/-- The steps that put the generation's directory in place. -/
def stageSteps (plan : Plan) : List FileStep :=
  plan.fillSteps ++
    [.syncDirectory plan.stagingPath,
      .move plan.stagingPath (Generation.directory plan.base plan.generation)]

/-- The steps that write the manifest under its first name. -/
def draftSteps (plan : Plan) : List FileStep :=
  [.createIn plan.base plan.temporary, .write plan.temporaryPath plan.manifest.encode,
    .sync plan.temporaryPath]

/-- The steps that make the generation live. -/
def commitSteps (plan : Plan) : List FileStep :=
  plan.draftSteps ++ [.move plan.temporaryPath (Generation.manifestPath plan.base)]

/-- The steps that remove what is left over. A refusal stops none of the others. -/
def cleanSteps (plan : Plan) : List FileStep :=
  plan.stale.map fun name => .removeTree (plan.base.child name)

/-- Puts the generation's directory in place, or nothing. -/
def stage (chance : Chance) (plan : Plan) (files : FileSystem) : FileSystem × Except Error Unit :=
  chance.takeOrUndo .stage files plan.stageSteps (.removeTree plan.stagingPath) plan.base

/-- Replaces the manifest, or leaves it as it is. It may be replaced and not be on the device. -/
def commit (chance : Chance) (plan : Plan) (files : FileSystem) : FileSystem × Except Error Unit :=
  chance.takeOrUndo .commit files plan.commitSteps (.removeFile plan.temporaryPath) plan.base

end Plan

/-- What became of a publication. -/
structure Publication where
  files : FileSystem
  /-- The generation whose directory was put in place, if it came to that. -/
  staged : Option UInt64 := none
  /-- What could not be removed. -/
  refused : List (Path × FileError) := []
  result : Except Error UInt64

def Plan.publish (chance : Chance) (plan : Plan) (files : FileSystem) : Publication :=
  match plan.stage chance files with
  | (files, .error e) => { files, result := .error e }
  | (files, .ok _) =>
    let staged := some plan.generation
    match plan.commit chance files with
    | (files, .error e) => { files, staged, result := .error e }
    | (files, .ok _) =>
      let (files, refused) := chance.takeEach .clean files plan.cleanSteps
      { files, staged, refused, result := .ok plan.generation }

/-- Publishes an image in a directory, which is made if it is missing. -/
def publish (digest : DigestFunction) (chance : Chance) (files : FileSystem) (base : Path)
    (image : Image) : Publication :=
  match files.makeDirectories base with
  | (files, .error reason) => { files, result := .error (.file base reason) }
  | (files, .ok _) =>
    match files.readDirectory base with
    | .error reason => { files, result := .error (.file base reason) }
    | .ok names => (Plan.make digest chance files base names image).publish chance files

/-- The generations and staging directories in a directory; none if its names cannot be read. -/
def staleIn (chance : Chance) (files : FileSystem) (base : Path) : List FileName :=
  match files.readDirectory base with
  | .ok names => (chance.order names).filter (Generation.isStale none)
  | .error _ => []

def clearSteps (chance : Chance) (files : FileSystem) (base : Path) : List FileStep :=
  (staleIn chance files base).map fun name => .removeTree (base.child name)

/-- Takes the manifest away and then all generations and staging directories. -/
def unpublish (chance : Chance) (files : FileSystem) (base : Path) :
    FileSystem × List (Path × FileError) × Except Error Unit :=
  let manifest := Generation.manifestPath base
  let clean (files : FileSystem) :=
    let (files, refused) := chance.takeEach .clean files (clearSteps chance files base)
    (files, refused, .ok ())
  match chance.take .commit files (.removeFile manifest) with
  | (files, .ok _) => clean files
  | (files, .error .notFound) => clean files
  | (files, .error reason) => (files, [], .error (.file manifest reason))

end PluginRegistry.Cache
