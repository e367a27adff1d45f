import PluginRegistry.Registry.Basic

/-!
# Look-ups

Questions to a registry by name and by namespace. Extensions are found only while they are linked
to a live point.
-/

namespace PluginRegistry

/-- Whether an extension is among the children of the live point it targets. -/
def Store.isLinked (s : Store) (id : ObjectId) : Bool :=
  match s.extension? id with
  | none => false
  | some e => (s.pointNamed? e.target).any (·.children.contains id)

namespace Registry

def contributionsIn (r : Registry) (ns : String) : List Contribution :=
  (r.objects.contributorsIn ns).filterMap r.objects.contribution?

/-! ## Extension points -/

def point? (r : Registry) (uniqueId : String) : Option PointHandle :=
  (r.objects.pointNamed? uniqueId).map fun p => ⟨.live, p.id⟩

def pointIn? (r : Registry) (ns localId : String) : Option PointHandle :=
  r.point? (Name.qualify ns localId)

def points (r : Registry) : List PointHandle := r.objects.pointIds.map (PointHandle.mk .live)

/-- The live extension points that contributors of a namespace declared. -/
def pointsIn (r : Registry) (ns : String) : List PointHandle :=
  (((r.contributionsIn ns).flatMap (·.points)).filter fun id =>
    (r.objects.point? id).isSome).map (PointHandle.mk .live)

/-! ## Extensions -/

/-- The linked extensions that contributors of a namespace declared. -/
def linkedIn (r : Registry) (ns : String) : List ObjectId :=
  ((r.contributionsIn ns).flatMap (·.extensions)).filter r.objects.isLinked

def isNamed (r : Registry) (uniqueId : String) (id : ObjectId) : Bool :=
  (r.objects.extension? id).any fun e => e.uniqueId? = some uniqueId

/-- The linked extension with a qualified identifier. -/
def extension? (r : Registry) (uniqueId : String) : Option ExtensionHandle := do
  -- the last dot need not be the one that ends the namespace
  let (ns, _) ← Name.split? uniqueId
  let id ← (r.linkedIn ns).find? (r.isNamed uniqueId)
  pure ⟨.live, id⟩

/-- The extension with a qualified identifier that is linked to a point. -/
def extensionFor? (r : Registry) (pointId extensionId : String) : Option ExtensionHandle := do
  let p ← r.objects.pointNamed? pointId
  let id ← p.children.find? (r.isNamed extensionId)
  pure ⟨.live, id⟩

def extensionIn? (r : Registry) (ns pointLocalId extensionId : String) : Option ExtensionHandle :=
  r.extensionFor? (Name.qualify ns pointLocalId) extensionId

/-- The linked extensions that contributors of a namespace declared. -/
def extensionsIn (r : Registry) (ns : String) : List ExtensionHandle :=
  (r.linkedIn ns).map (ExtensionHandle.mk .live)

/-! ## Elements -/

def elementsFor (r : Registry) (pointId : String) : List ElementHandle :=
  match r.objects.pointNamed? pointId with
  | none => []
  | some p =>
    ((p.children.filterMap r.objects.extension?).flatMap (·.children)).map (ElementHandle.mk .live)

def elementsIn (r : Registry) (ns pointLocalId : String) : List ElementHandle :=
  r.elementsFor (Name.qualify ns pointLocalId)

def elementsOf (r : Registry) (ns pointLocalId extensionId : String) : List ElementHandle :=
  match r.extensionIn? ns pointLocalId extensionId with
  | none => []
  | some h =>
    match r.objects.extension? h.id with
    | none => []
    | some e => e.children.map (ElementHandle.mk .live)

/-! ## Contributors -/

def namespaces (r : Registry) : List String := r.objects.namespaces

def hasContributor (r : Registry) (c : ContributorId) : Bool := r.objects.hasContribution c

end Registry

end PluginRegistry
