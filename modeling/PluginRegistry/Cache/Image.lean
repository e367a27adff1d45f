import PluginRegistry.Cache.Header
import PluginRegistry.Cache.Integrity
import PluginRegistry.Cache.Record

/-!
# A store as cache sections

An `Image` is one generation of a cache in memory: a fingerprint and the bytes of its sections,
headers included. `Image.encode` makes one from the parts of a store, `Image.decode` reads the
parts back, after checking everything that bytes can get wrong.
-/

namespace PluginRegistry.Cache

/-- The sections of one generation. -/
structure Image where
  fingerprint : UInt64
  sections : List (Section × Bytes)
  deriving DecidableEq, Repr

namespace Image

/-- The bytes of a section; of two with one name the first. -/
def bytes? (image : Image) (s : Section) : Option Bytes := image.sections.lookup s

/-! ## Encoding -/

/-- The keys and values of properties in turn. -/
def flatten : List (String × String) → List String
  | [] => []
  | (key, value) :: rest => key :: value :: flatten rest

/-- The numbers of an object, with the number of its strings. -/
def mainRecord (strings : UInt32) : RegistryObject → MainRecord
  | .point p => .point p.owner p.contributor p.children strings
  | .extension e => .extension e.contributor e.children strings
  | .element e => .element e.parent e.parentKind e.owner e.contributor e.children strings

def stringRecord : RegistryObject → StringRecord
  | .point p => .point p.uniqueId p.label p.schema p.ns
  | .extension e => .extension e.simpleId e.label e.target e.ns
  | .element e => .element e.name (flatten e.properties) e.value

/-- The table entries and the main section for objects whose strings start at number `index` and
whose records start at `offset`. -/
def layOut (index offset : Nat) : List RegistryObject → List TableEntry × Bytes
  | [] => ([], [])
  | object :: objects =>
    let record := (mainRecord index.toUInt32 object).write
    let (entries, main) := layOut (index + 1) (offset + record.length) objects
    ({ id := object.id
       kind := object.kind
       offset := offset.toUInt32
       length := record.length.toUInt32 } :: entries, record ++ main)

def contributionRecord (c : Contribution) : ContributionRecord :=
  { contributor := c.contributor, ns := c.ns, raw := c.raw }

def encode (parts : Parts) (fingerprint : UInt64) : Image :=
  let (entries, main) := layOut 0 0 parts.objects
  let table : Table := { fingerprint, nextId := parts.nextId, entries }
  let body : Section → Bytes
    | .table => table.write
    | .main => main
    | .extra => Wire.list StringRecord.write (parts.objects.map stringRecord)
    | .contributions =>
      Wire.list ContributionRecord.write (parts.contributions.map contributionRecord)
    | .orphans => Wire.list writeOrphans parts.orphans
    | .manifest => []
  { fingerprint, sections := Section.data.map fun s => (s, wrap s (body s)) }

/-! ## Decoding -/

/-- The body of a section that has to be there. -/
def body (image : Image) (s : Section) : Except Error Bytes :=
  match image.bytes? s with
  | none => .error (.corrupt s .sectionMissing)
  | some bytes => unwrap s bytes

def readBody {α : Type} (s : Section) (read : Wire.Reader α) (bytes : Bytes) : Except Error α :=
  match read.value bytes with
  | .ok a => .ok a
  | .error problem => .error (.decode s problem)

/-- Keys and values in turn as pairs, if none is left over. -/
def pairUp? : List String → Option (List (String × String))
  | [] => some []
  | [_] => none
  | key :: value :: rest => (pairUp? rest).map ((key, value) :: ·)

/-- The object with id `id` from its numbers and its strings. -/
def rebuild (id : ObjectId) : MainRecord → StringRecord → Except Error RegistryObject
  | .point owner contributor children _, .point uniqueId label schema ns =>
    .ok (.point { id, uniqueId, label, schema, ns, owner, contributor, children })
  | .extension contributor children _, .extension simpleId label target ns =>
    .ok (.extension { id, simpleId, label, target, ns, contributor, children })
  | .element parent parentKind owner contributor children _, .element name properties value =>
    match pairUp? properties with
    | some properties =>
      .ok (.element
        { id, name, properties, value, parent, parentKind, owner, contributor, children })
    | none => .error (.corrupt .extra (.oddProperties id))
  | _, _ => .error (.corrupt .extra (.stringsOfAnotherKind id))

/-- Takes strings that no record took before. -/
def takeStrings (strings : Array (Option StringRecord)) (id : ObjectId) (index : UInt32) :
    Except Error (StringRecord × Array (Option StringRecord)) :=
  match strings[index.toNat]? with
  | some (some record) => .ok (record, strings.setIfInBounds index.toNat none)
  | _ => .error (.corrupt .extra (.stringsMissing id))

/-- Reads the objects that the table names from the main section. -/
def readObjects (main : Bytes) (strings : Array (Option StringRecord)) :
    List TableEntry → Except Error (List RegistryObject)
  | [] => .ok []
  | entry :: entries => do
    let start := entry.offset.toNat
    let length := entry.length.toNat
    if main.length < start + length then
      throw (.corrupt .table (.entryOutside entry.id))
    let record ← readBody .main MainRecord.read ((main.drop start).take length)
    if record.kind ≠ entry.kind then
      throw (.corrupt .main (.wrongKind entry.id))
    let (own, strings) ← takeStrings strings entry.id record.strings
    let object ← rebuild entry.id record own
    let objects ← readObjects main strings entries
    pure (object :: objects)

/-- The contribution in a record whose counts are right. -/
def readContribution (r : ContributionRecord) : Except Error Contribution :=
  match Contribution.ofRaw? r.contributor r.ns r.raw with
  | some c => .ok c
  | none => .error (.corrupt .contributions (.badContribution r.contributor))

/-- The parts of the store in an image with the expected fingerprint. -/
def decode (image : Image) (expected : UInt64) : Except Error Parts := do
  let table ← readBody .table Table.read (← image.body .table)
  -- a cache of another state need not be sound in its other sections
  if table.fingerprint ≠ expected then
    throw (.fingerprintMismatch expected table.fingerprint)
  let main ← image.body .main
  let strings ← readBody .extra (Wire.Reader.list StringRecord.read) (← image.body .extra)
  let objects ← readObjects main (strings.map some).toArray table.entries
  let records ← readBody .contributions (Wire.Reader.list ContributionRecord.read)
    (← image.body .contributions)
  let contributions ← records.mapM readContribution
  let orphans ← readBody .orphans (Wire.Reader.list readOrphans) (← image.body .orphans)
  let parts : Parts := { nextId := table.nextId, objects, contributions, orphans }
  checkIntegrity parts
  pure parts

end Image

end PluginRegistry.Cache
