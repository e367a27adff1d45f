import PluginRegistry.Object

/-!
# Declarations

What a contributor hands in: the extension points it offers and the extensions it brings, with
their content as trees of elements.
-/

namespace PluginRegistry

/-- An element of an extension's content, with the elements below it. -/
inductive ElementDecl
  | mk (name : String) (properties : List (String × String)) (value : Option String)
      (children : List ElementDecl)

/-- An extension point, by its local name. -/
structure PointDecl where
  localId : String
  label : String := ""
  schema : Option String := none
  deriving DecidableEq, Repr

/-- An extension. A target without a dot means a point of the contributor's own namespace. -/
structure ExtensionDecl where
  localId : Option String := none
  label : String := ""
  target : String
  content : List ElementDecl := []

/-- All that a contributor hands in at once. -/
structure Declaration where
  contributor : ContributorId
  points : List PointDecl := []
  extensions : List ExtensionDecl := []

mutual

/-- An element with the values of all properties in its tree localized. -/
def ElementDecl.localize (f : String → String) : ElementDecl → ElementDecl
  | .mk name properties value children =>
    .mk name (properties.map fun (key, v) => (key, f v)) value (localizeAll f children)

def localizeAll (f : String → String) : List ElementDecl → List ElementDecl
  | [] => []
  | e :: es => e.localize f :: localizeAll f es

end

/-- The unique id of the point that an extension of the namespace `ns` attaches to. -/
def ExtensionDecl.targetIn (d : ExtensionDecl) (ns : String) : String :=
  if Name.isQualified d.target then d.target else Name.qualify ns d.target

end PluginRegistry
