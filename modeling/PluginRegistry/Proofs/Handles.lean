import PluginRegistry.Proofs.Results
import PluginRegistry.Snapshot

/-!
# Where handles lead

`Handle.Leads` has every way to get from one handle to another. None of them changes the source
(`Handle.Leads.source_eq`), so whoever starts at a view of an event stays on its snapshot. Through a
closed snapshot no handle answers anything (`Handle.refuses_of_closed`).
-/

namespace PluginRegistry

/-! ## Navigation -/

def ElementParent.handle : ElementParent → Handle
  | .extension e => .extension e
  | .element e => .element e

namespace Handle

/-- One handle gives another: `look` answers a question to the first, and the second is in the
answer. -/
inductive Leads (look : Resolvers) : Handle → Handle → Prop
  | extensions {p : PointHandle} {es : List ExtensionHandle} {e : ExtensionHandle}
      (h : p.extensions look = .ok es) (he : e ∈ es) : Leads look (.point p) (.extension e)
  | extensionNamed {p : PointHandle} {uniqueId : String} {e : ExtensionHandle}
      (h : p.extensionNamed? look uniqueId = .ok (some e)) : Leads look (.point p) (.extension e)
  | pointElements {p : PointHandle} {es : List ElementHandle} {e : ElementHandle}
      (h : p.elements look = .ok es) (he : e ∈ es) : Leads look (.point p) (.element e)
  | elements {x : ExtensionHandle} {es : List ElementHandle} {e : ElementHandle}
      (h : x.elements look = .ok es) (he : e ∈ es) : Leads look (.extension x) (.element e)
  | children {a : ElementHandle} {es : List ElementHandle} {e : ElementHandle}
      (h : a.children look = .ok es) (he : e ∈ es) : Leads look (.element a) (.element e)
  | childrenNamed {a : ElementHandle} {name : String} {es : List ElementHandle} {e : ElementHandle}
      (h : a.childrenNamed look name = .ok es) (he : e ∈ es) : Leads look (.element a) (.element e)
  | parent {a : ElementHandle} {p : ElementParent} (h : a.parent look = .ok p) :
      Leads look (.element a) p.handle
  | declaringExtension {a : ElementHandle} {x : ExtensionHandle}
      (h : a.declaringExtension look = .ok x) : Leads look (.element a) (.extension x)

end Handle

section

variable {look : Resolvers}

theorem PointHandle.source_of_extensions {p : PointHandle} {es : List ExtensionHandle}
    (h : p.extensions look = .ok es) {e : ExtensionHandle} (he : e ∈ es) : e.source = p.source := by
  obtain ⟨point, -, h⟩ := of_bind_ok h
  cases h
  obtain ⟨id, -, rfl⟩ := List.mem_map.1 he
  rfl

theorem PointHandle.mem_of_findNamed {uniqueId : String} {es : List ExtensionHandle}
    {e : ExtensionHandle} (h : findNamed look uniqueId es = .ok (some e)) : e ∈ es := by
  induction es with
  | nil => cases h
  | cons first es ih =>
    obtain ⟨name, -, h⟩ := of_bind_ok h
    rcases ite_eq_iff.1 h with ⟨-, h⟩ | ⟨-, h⟩
    · cases h
      exact List.mem_cons_self
    · exact List.mem_cons_of_mem _ (ih h)

theorem ExtensionHandle.source_of_elements {x : ExtensionHandle} {es : List ElementHandle}
    (h : x.elements look = .ok es) {e : ElementHandle} (he : e ∈ es) : e.source = x.source := by
  obtain ⟨extension, -, h⟩ := of_bind_ok h
  cases h
  obtain ⟨id, -, rfl⟩ := List.mem_map.1 he
  rfl

theorem PointHandle.source_of_elements {p : PointHandle} {es : List ElementHandle}
    (h : p.elements look = .ok es) {e : ElementHandle} (he : e ∈ es) : e.source = p.source := by
  obtain ⟨extensions, hextensions, h⟩ := of_bind_ok h
  obtain ⟨lists, hlists, h⟩ := of_bind_ok h
  cases h
  obtain ⟨list, hlist, he⟩ := List.mem_flatten.1 he
  obtain ⟨x, hx, hxs⟩ := exists_of_mem_mapM hlists hlist
  exact (x.source_of_elements hxs he).trans (source_of_extensions hextensions hx)

namespace ElementHandle

variable {a : ElementHandle}

theorem source_of_children {es : List ElementHandle} (h : a.children look = .ok es)
    {e : ElementHandle} (he : e ∈ es) : e.source = a.source := by
  obtain ⟨element, -, h⟩ := of_bind_ok h
  cases h
  obtain ⟨id, -, rfl⟩ := List.mem_map.1 he
  rfl

theorem source_of_childrenNamed {name : String} {es : List ElementHandle}
    (h : a.childrenNamed look name = .ok es) {e : ElementHandle} (he : e ∈ es) :
    e.source = a.source := by
  obtain ⟨all, hall, h⟩ := of_bind_ok h
  exact source_of_children hall (mem_of_filterM h he)

theorem source_of_parent {p : ElementParent} (h : a.parent look = .ok p) :
    p.handle.source = a.source := by
  obtain ⟨element, -, h⟩ := of_bind_ok h
  split at h <;> cases h <;> rfl

theorem source_of_climb {steps : Nat} {x : ExtensionHandle} (h : a.climb look steps = .ok x) :
    x.source = a.source := by
  induction steps generalizing a with
  | zero => cases h
  | succ steps ih =>
    obtain ⟨p, hp, h⟩ := of_bind_ok h
    have hsource := source_of_parent hp
    cases p with
    | extension e =>
      cases h
      exact hsource
    | element above => exact (ih h).trans hsource

end ElementHandle

/-- Whoever goes from one handle to another stays on its source. -/
theorem Handle.Leads.source_eq {a b : Handle} (h : Leads look a b) : b.source = a.source := by
  cases h with
  | extensions h he => exact PointHandle.source_of_extensions h he
  | extensionNamed h =>
    obtain ⟨es, hes, h⟩ := of_bind_ok h
    exact PointHandle.source_of_extensions hes (PointHandle.mem_of_findNamed h)
  | pointElements h he => exact PointHandle.source_of_elements h he
  | elements h he => exact ExtensionHandle.source_of_elements h he
  | children h he => exact ElementHandle.source_of_children h he
  | childrenNamed h he => exact ElementHandle.source_of_childrenNamed h he
  | parent h => exact ElementHandle.source_of_parent h
  | declaringExtension h => exact ElementHandle.source_of_climb h

end

/-! ## Closed snapshots -/

/-- Every question to the point is refused because the event is over. -/
structure PointHandle.Refuses (look : Resolvers) (h : PointHandle) : Prop where
  isValid : h.isValid look = false
  object : h.object look = .error .deltaClosed
  uniqueId : h.uniqueId look = .error .deltaClosed
  extensions : h.extensions look = .error .deltaClosed
  extensionNamed? : ∀ u, h.extensionNamed? look u = .error .deltaClosed
  elements : h.elements look = .error .deltaClosed

/-- Every question to the extension is refused because the event is over. -/
structure ExtensionHandle.Refuses (look : Resolvers) (h : ExtensionHandle) : Prop where
  isValid : h.isValid look = false
  object : h.object look = .error .deltaClosed
  uniqueId? : h.uniqueId? look = .error .deltaClosed
  elements : h.elements look = .error .deltaClosed

/-- Every question to the element is refused because the event is over. -/
structure ElementHandle.Refuses (look : Resolvers) (h : ElementHandle) : Prop where
  isValid : h.isValid look = false
  object : h.object look = .error .deltaClosed
  children : h.children look = .error .deltaClosed
  childrenNamed : ∀ name, h.childrenNamed look name = .error .deltaClosed
  parent : h.parent look = .error .deltaClosed
  declaringExtension : h.declaringExtension look = .error .deltaClosed

def Handle.Refuses (look : Resolvers) : Handle → Prop
  | .point h => h.Refuses look
  | .extension h => h.Refuses look
  | .element h => h.Refuses look

theorem Resolver.object_of_closed {α : Type} {look : Resolver}
    (h : ∀ id kind, look id kind = .error .deltaClosed) {id : ObjectId} {kind : ObjectKind}
    {pick : RegistryObject → Option α} : look.object id kind pick = .error .deltaClosed := by
  rw [Resolver.object, h]

theorem Handle.refuses_of_closed {look : Resolvers} {h : Handle}
    (hclosed : ∀ id kind, look h.source id kind = .error .deltaClosed) : h.Refuses look := by
  cases h with
  | point p =>
    have hobject : p.object look = .error .deltaClosed :=
      Resolver.object_of_closed hclosed
    have hextensions : p.extensions look = .error .deltaClosed := by
      rw [PointHandle.extensions, hobject]
      rfl
    exact {
      isValid := by rw [PointHandle.isValid, hobject]; rfl
      object := hobject
      uniqueId := by rw [PointHandle.uniqueId, hobject]; rfl
      extensions := hextensions
      extensionNamed? := fun u => by rw [PointHandle.extensionNamed?, hextensions]; rfl
      elements := by rw [PointHandle.elements, hextensions]; rfl }
  | extension e =>
    have hobject : e.object look = .error .deltaClosed :=
      Resolver.object_of_closed hclosed
    exact {
      isValid := by rw [ExtensionHandle.isValid, hobject]; rfl
      object := hobject
      uniqueId? := by rw [ExtensionHandle.uniqueId?, hobject]; rfl
      elements := by rw [ExtensionHandle.elements, hobject]; rfl }
  | element a =>
    have hobject : a.object look = .error .deltaClosed :=
      Resolver.object_of_closed hclosed
    have hchildren : a.children look = .error .deltaClosed := by
      rw [ElementHandle.children, hobject]
      rfl
    have hparent : a.parent look = .error .deltaClosed := by
      rw [ElementHandle.parent, hobject]
      rfl
    -- already the first parent on the way up is refused
    have hclimb : ∀ steps, a.climb look (steps + 1) = .error .deltaClosed := by
      intro steps
      rw [ElementHandle.climb, hparent]
      rfl
    exact {
      isValid := by rw [ElementHandle.isValid, hobject]; rfl
      object := hobject
      children := hchildren
      childrenNamed := fun name => by rw [ElementHandle.childrenNamed, hchildren]; rfl
      parent := hparent
      declaringExtension := hclimb _ }

namespace Snapshots

variable {s : Snapshots} {id : SnapshotId}

theorem resolver_of_isClosed (h : s.isClosed id = true) (fallback : Resolver) (x : ObjectId)
    (kind : ObjectKind) : s.resolver id fallback x kind = .error .deltaClosed := by
  rw [isClosed, Option.isNone_iff_eq_none] at h
  rw [resolver, h]

/-- An open snapshot answers for the objects it holds, whatever became of them. -/
theorem resolver_of_captured {captured : Captured} (h : s.captured? id = some captured)
    {x : ObjectId} {o : RegistryObject} (hx : captured[x]? = some o) (fallback : Resolver) :
    s.resolver id fallback x o.kind = .ok o := by
  rw [resolver, h]
  simp only [hx, if_true]

end Snapshots

end PluginRegistry
