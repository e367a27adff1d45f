import PluginRegistry.Name

/-!
# Registry objects

Three kinds of object live in a registry: extension points, extensions, and the elements of an
extension's content. They refer to each other by `ObjectId` only, so an object is plain data and
whoever holds one is not affected by later changes to the registry.
-/

namespace PluginRegistry

/-- The number of an object; its slot in the store. -/
structure ObjectId where
  val : UInt32
  deriving DecidableEq, Repr, Inhabited

namespace ObjectId

def index (id : ObjectId) : Nat := id.val.toNat

/-- The id of slot `n`. -/
def ofIndex (n : Nat) : ObjectId := ⟨n.toUInt32⟩

/-- An id as it appears in messages, `#12`. -/
def text (id : ObjectId) : String := "#" ++ toString id.index

instance : Ord ObjectId := ⟨fun a b => compare a.val b.val⟩

instance : Std.TransOrd ObjectId where
  eq_swap {a b} := Std.OrientedOrd.eq_swap (a := a.val) (b := b.val)
  isLE_trans {a b c} := Std.TransOrd.isLE_trans (a := a.val) (b := b.val) (c := c.val)

instance : Std.LawfulEqOrd ObjectId where
  eq_of_compare {a b} h := by
    cases a; cases b
    exact congrArg ObjectId.mk (Std.LawfulEqOrd.eq_of_compare h)

theorem index_ofIndex {n : Nat} (h : n < UInt32.size) : (ofIndex n).index = n :=
  UInt32.toNat_ofNat_of_lt' h

theorem ofIndex_index (id : ObjectId) : ofIndex id.index = id := by
  simp [ofIndex, index]

theorem index_inj {a b : ObjectId} (h : a.index = b.index) : a = b := by
  rw [← ofIndex_index a, ← ofIndex_index b, h]

theorem index_lt (id : ObjectId) : id.index < UInt32.size := id.val.toNat_lt

end ObjectId

/-- The number of a module that contributes to the registry. -/
structure ContributorId where
  val : UInt64
  deriving DecidableEq, Repr, Inhabited

def ContributorId.text (c : ContributorId) : String := toString c.val.toNat

/-- The kind of a registry object. -/
inductive ObjectKind
  | point
  | extension
  | element
  deriving DecidableEq, Repr

def ObjectKind.text : ObjectKind → String
  | .point => "extension point"
  | .extension => "extension"
  | .element => "configuration element"

/-- A named place that extensions can attach to. -/
structure ExtensionPoint where
  id : ObjectId
  /-- Namespace and local name, joined by a dot. -/
  uniqueId : String
  label : String
  schema : Option String
  ns : String
  /-- The contributor that owns the namespace. -/
  owner : ContributorId
  contributor : ContributorId
  /-- The extensions linked to the point, in the order they were linked. -/
  children : List ObjectId
  deriving DecidableEq, Repr

/-- The local part of a point's identifier. -/
def ExtensionPoint.simpleId (p : ExtensionPoint) : String := Name.localPart p.uniqueId

/-- A contribution to one extension point. -/
structure Extension where
  id : ObjectId
  /-- The local name; an extension without one is anonymous. -/
  simpleId : Option String
  label : String
  /-- The unique id of the point this extension wants to attach to. -/
  target : String
  ns : String
  contributor : ContributorId
  /-- The top elements of its content. -/
  children : List ObjectId
  deriving DecidableEq, Repr

/-- The qualified identifier of an extension that has a name. -/
def Extension.uniqueId? (e : Extension) : Option String := e.simpleId.map (Name.qualify e.ns)

/-- What kind of object an element hangs below. -/
inductive ParentKind
  | extension
  | element
  deriving DecidableEq, Repr

/-- The kind of object that the parent is. -/
def ParentKind.objectKind : ParentKind → ObjectKind
  | .extension => .extension
  | .element => .element

/-- A node in an extension's content. -/
structure Element where
  id : ObjectId
  name : String
  /-- Keys with their values, in the order declared; keys may repeat. -/
  properties : List (String × String)
  value : Option String
  parent : ObjectId
  parentKind : ParentKind
  owner : ContributorId
  contributor : ContributorId
  children : List ObjectId
  deriving DecidableEq, Repr

/-- The value of the first property with this key. -/
def Element.attribute? (e : Element) (key : String) : Option String := e.properties.lookup key

/-- The keys of all properties, repeats included. -/
def Element.attributeNames (e : Element) : List String := e.properties.map (·.1)

/-- Any object of the registry. -/
inductive RegistryObject
  | point (p : ExtensionPoint)
  | extension (e : Extension)
  | element (e : Element)
  deriving DecidableEq, Repr

namespace RegistryObject

def id : RegistryObject → ObjectId
  | .point p => p.id
  | .extension e => e.id
  | .element e => e.id

def kind : RegistryObject → ObjectKind
  | .point _ => .point
  | .extension _ => .extension
  | .element _ => .element

def contributor : RegistryObject → ContributorId
  | .point p => p.contributor
  | .extension e => e.contributor
  | .element e => e.contributor

/-- The objects below this one: extensions of a point, elements of the others. -/
def children : RegistryObject → List ObjectId
  | .point p => p.children
  | .extension e => e.children
  | .element e => e.children

/-- The kind that every child must have. -/
def childKind : RegistryObject → ObjectKind
  | .point _ => .extension
  | .extension _ => .element
  | .element _ => .element

def point? : RegistryObject → Option ExtensionPoint
  | .point p => some p
  | _ => none

def extension? : RegistryObject → Option Extension
  | .extension e => some e
  | _ => none

def element? : RegistryObject → Option Element
  | .element e => some e
  | _ => none

end RegistryObject

end PluginRegistry
