import PluginRegistry.Declaration
import PluginRegistry.Transaction

/-!
# Taking declarations in and contributors out

`Transaction.ingest` stores what a declaration brings and links it; a point whose unique id is
taken is left out. `Transaction.removeContributor` unlinks and removes all that a contributor owns.
-/

namespace PluginRegistry

/-- Who elements are stored for and what they hang below. -/
structure ElementContext where
  parent : ObjectId
  parentKind : ParentKind
  owner : ContributorId
  contributor : ContributorId

mutual

/-- Stores an element after the elements below it; its id comes before theirs. -/
def Store.addElement (s : Store) (context : ElementContext) : ElementDecl → ObjectId × Store
  | .mk name properties value children =>
    let (id, s) := s.allocate
    let (children, s) :=
      s.addElements { context with parent := id, parentKind := .element } children
    let element : Element :=
      { id, name, properties, value
        parent := context.parent
        parentKind := context.parentKind
        owner := context.owner
        contributor := context.contributor
        children }
    (id, s.put (.element element) false)

/-- Stores trees of elements and gives the ids of their roots. -/
def Store.addElements (s : Store) (context : ElementContext) :
    List ElementDecl → List ObjectId × Store
  | [] => ([], s)
  | e :: es =>
    let (id, s) := s.addElement context e
    let (ids, s) := s.addElements context es
    (id :: ids, s)

end

/-- A declaration together with its contributor's namespace and the owner of that. -/
structure PreparedDeclaration where
  declaration : Declaration
  ns : String
  owner : ContributorId

/-- How much a declaration brought in. -/
structure Ingested where
  points : Nat
  extensions : Nat
  deriving DecidableEq, Repr

namespace Transaction

/-- Stores the points of a declaration whose unique ids are new. -/
def addPoints (p : PreparedDeclaration) (t : Transaction) :
    List PointDecl → List ObjectId × Transaction
  | [] => ([], t)
  | decl :: decls =>
    let contributor := p.declaration.contributor
    let uniqueId := Name.qualify p.ns decl.localId
    if (t.objects.pointNamed? uniqueId).isSome then
      (t.report (.duplicatePoint contributor uniqueId)).addPoints p decls
    else
      let (id, objects) := t.objects.allocate
      let point : ExtensionPoint :=
        { id, uniqueId
          label := decl.label
          schema := decl.schema
          ns := p.ns
          owner := p.owner
          contributor
          children := [] }
      let t := { t with objects := objects.put (.point point) true }
      let (ids, t) := t.addPoints p decls
      (id :: ids, t)

def addExtensions (p : PreparedDeclaration) (s : Store) : List ExtensionDecl → List ObjectId × Store
  | [] => ([], s)
  | decl :: decls =>
    let contributor := p.declaration.contributor
    let (id, s) := s.allocate
    let (children, s) := s.addElements
      { parent := id, parentKind := .extension, owner := p.owner, contributor } decl.content
    let extension : Extension :=
      { id
        simpleId := decl.localId
        label := decl.label
        target := decl.targetIn p.ns
        ns := p.ns
        contributor
        children }
    let (ids, s) := addExtensions p (s.put (.extension extension) false) decls
    (id :: ids, s)

/-- Stores and links what a declaration brings. -/
def ingest (t : Transaction) (p : PreparedDeclaration) : Ingested × Transaction :=
  let contributor := p.declaration.contributor
  let (points, t) := t.addPoints p p.declaration.points
  let (extensions, objects) := addExtensions p t.objects p.declaration.extensions
  -- filed even if no point had a new name and there is nothing else
  let objects := objects.addContribution { contributor, ns := p.ns, points, extensions }
  let (affected, t) := { t with objects }.linkAll points extensions
  ({ points := points.length, extensions := extensions.length },
    t.report (.contributionAdded contributor points.length extensions.length affected.length))

/-- Removes everything a contributor owns and says whether it was known. -/
def removeContributor (t : Transaction) (c : ContributorId) : Bool × Transaction :=
  if t.objects.hasContribution c then
    let (affected, t) := t.unlinkAll c
    let (removed, objects) := t.objects.remove (t.objects.associated c)
    let objects := (objects.removeContribution c).2
    (true, { t with objects }.report
      (.contributionRemoved c removed.length affected.length))
  else (false, t)

end Transaction

end PluginRegistry
