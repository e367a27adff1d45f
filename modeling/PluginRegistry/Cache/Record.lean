import PluginRegistry.Object
import PluginRegistry.Wire.Value

/-!
# The records of a cache

Each object is spread over three sections. The table has an entry with its id, its kind and the
bytes it takes in the main section; the main section holds its numbers, and the number of its
strings; the extra section holds the strings of all objects as one list. Contributions and orphan
buckets have a record each.

For every record there is a writer and a reader, field by field in the same order.
-/

namespace PluginRegistry.Cache

open Wire (Reader)

/-! ## Ids and kinds -/

def writeId (id : ObjectId) : Bytes := Wire.u32 id.val

def readId : Reader ObjectId := do
  let n ← Reader.u32
  pure ⟨n⟩

def writeContributor (c : ContributorId) : Bytes := Wire.u64 c.val

def readContributor : Reader ContributorId := do
  let n ← Reader.u64
  pure ⟨n⟩

/-- The number of a kind in front of a record. -/
def kindTag : ObjectKind → Nat
  | .point => 0
  | .extension => 1
  | .element => 2

def kindOfTag? : Nat → Option ObjectKind
  | 0 => some .point
  | 1 => some .extension
  | 2 => some .element
  | _ => none

def writeKind (kind : ObjectKind) : Bytes := Wire.number (kindTag kind)

def readKind : Reader ObjectKind := Reader.tag kindOfTag?

def parentTag : ParentKind → Nat
  | .extension => 0
  | .element => 1

def parentOfTag? : Nat → Option ParentKind
  | 0 => some .extension
  | 1 => some .element
  | _ => none

def writeParentKind (kind : ParentKind) : Bytes := Wire.number (parentTag kind)

def readParentKind : Reader ParentKind := Reader.tag parentOfTag?

/-! ## The table -/

/-- Where the main section holds an object. -/
structure TableEntry where
  id : ObjectId
  kind : ObjectKind
  offset : UInt32
  length : UInt32
  deriving DecidableEq, Repr

def TableEntry.write (e : TableEntry) : Bytes :=
  writeId e.id ++ writeKind e.kind ++ Wire.u32 e.offset ++ Wire.u32 e.length

def TableEntry.read : Reader TableEntry := do
  let id ← readId
  let kind ← readKind
  let offset ← Reader.u32
  let length ← Reader.u32
  pure { id, kind, offset, length }

/-- What the cache was built from, the number of slots, and the objects. -/
structure Table where
  fingerprint : UInt64
  nextId : UInt32
  entries : List TableEntry
  deriving DecidableEq, Repr

def Table.write (t : Table) : Bytes :=
  Wire.u64 t.fingerprint ++ Wire.u32 t.nextId ++ Wire.list TableEntry.write t.entries

def Table.read : Reader Table := do
  let fingerprint ← Reader.u64
  let nextId ← Reader.u32
  let entries ← Reader.list TableEntry.read
  pure { fingerprint, nextId, entries }

/-! ## The numbers of an object -/

/-- An object without its id and its strings; `strings` is their number in the extra section. -/
inductive MainRecord
  | point (owner contributor : ContributorId) (children : List ObjectId) (strings : UInt32)
  | extension (contributor : ContributorId) (children : List ObjectId) (strings : UInt32)
  | element (parent : ObjectId) (parentKind : ParentKind) (owner contributor : ContributorId)
      (children : List ObjectId) (strings : UInt32)
  deriving DecidableEq, Repr

def MainRecord.kind : MainRecord → ObjectKind
  | .point .. => .point
  | .extension .. => .extension
  | .element .. => .element

def MainRecord.strings : MainRecord → UInt32
  | .point _ _ _ strings => strings
  | .extension _ _ strings => strings
  | .element _ _ _ _ _ strings => strings

def MainRecord.write (r : MainRecord) : Bytes :=
  writeKind r.kind ++
    match r with
    | .point owner contributor children strings =>
      writeContributor owner ++ writeContributor contributor ++ Wire.list writeId children ++
        Wire.u32 strings
    | .extension contributor children strings =>
      writeContributor contributor ++ Wire.list writeId children ++ Wire.u32 strings
    | .element parent parentKind owner contributor children strings =>
      writeId parent ++ writeParentKind parentKind ++ writeContributor owner ++
        writeContributor contributor ++ Wire.list writeId children ++ Wire.u32 strings

def MainRecord.read : Reader MainRecord := do
  match ← readKind with
  | .point =>
    let owner ← readContributor
    let contributor ← readContributor
    let children ← Reader.list readId
    let strings ← Reader.u32
    pure (.point owner contributor children strings)
  | .extension =>
    let contributor ← readContributor
    let children ← Reader.list readId
    let strings ← Reader.u32
    pure (.extension contributor children strings)
  | .element =>
    let parent ← readId
    let parentKind ← readParentKind
    let owner ← readContributor
    let contributor ← readContributor
    let children ← Reader.list readId
    let strings ← Reader.u32
    pure (.element parent parentKind owner contributor children strings)

/-! ## The strings of an object -/

/-- The strings of one object. The properties of an element are keys and values in turn. -/
inductive StringRecord
  | point (uniqueId label : String) (schema : Option String) (ns : String)
  | extension (simpleId : Option String) (label target ns : String)
  | element (name : String) (properties : List String) (value : Option String)
  deriving DecidableEq, Repr

def StringRecord.kind : StringRecord → ObjectKind
  | .point .. => .point
  | .extension .. => .extension
  | .element .. => .element

def StringRecord.write (r : StringRecord) : Bytes :=
  writeKind r.kind ++
    match r with
    | .point uniqueId label schema ns =>
      Wire.text uniqueId ++ Wire.text label ++ Wire.option Wire.text schema ++ Wire.text ns
    | .extension simpleId label target ns =>
      Wire.option Wire.text simpleId ++ Wire.text label ++ Wire.text target ++ Wire.text ns
    | .element name properties value =>
      Wire.text name ++ Wire.list Wire.text properties ++ Wire.option Wire.text value

def StringRecord.read : Reader StringRecord := do
  match ← readKind with
  | .point =>
    let uniqueId ← Reader.text
    let label ← Reader.text
    let schema ← Reader.option Reader.text
    let ns ← Reader.text
    pure (.point uniqueId label schema ns)
  | .extension =>
    let simpleId ← Reader.option Reader.text
    let label ← Reader.text
    let target ← Reader.text
    let ns ← Reader.text
    pure (.extension simpleId label target ns)
  | .element =>
    let name ← Reader.text
    let properties ← Reader.list Reader.text
    let value ← Reader.option Reader.text
    pure (.element name properties value)

/-! ## Contributions and orphans -/

/-- A contribution with its ids as one flat array. -/
structure ContributionRecord where
  contributor : ContributorId
  ns : String
  raw : List UInt32
  deriving DecidableEq, Repr

def ContributionRecord.write (r : ContributionRecord) : Bytes :=
  writeContributor r.contributor ++ Wire.text r.ns ++ Wire.list Wire.u32 r.raw

def ContributionRecord.read : Reader ContributionRecord := do
  let contributor ← readContributor
  let ns ← Reader.text
  let raw ← Reader.list Reader.u32
  pure { contributor, ns, raw }

def writeOrphans (bucket : String × List ObjectId) : Bytes :=
  Wire.text bucket.1 ++ Wire.list writeId bucket.2

def readOrphans : Reader (String × List ObjectId) := do
  let point ← Reader.text
  let extensions ← Reader.list readId
  pure (point, extensions)

end PluginRegistry.Cache
