import Mathlib.Data.List.Forall2
import PluginRegistry.Proofs.Ingest

/-!
# What a declaration leaves

Storing a declaration leaves one object for each thing in it, in the order declared: a point for
each point declaration whose unique id is new (`forall₂_addPoints`), an extension for each
extension declaration (`forall₂_addExtensions`), and below that the declared tree of elements
(`Store.HoldsAll`).
-/

namespace PluginRegistry

theorem forall_of_forall₂ {α β : Type} {R : α → β → Prop} {P : α → Prop} {as : List α}
    {bs : List β} (h : List.Forall₂ R as bs) (hP : ∀ {a b}, R a b → P a) : ∀ a ∈ as, P a := by
  induction h with
  | nil => simp
  | cons hab _ ih =>
    intro a ha
    rcases List.mem_cons.1 ha with rfl | ha
    · exact hP hab
    · exact ih a ha

/-- The point that is stored for a declaration. -/
def PreparedDeclaration.point (p : PreparedDeclaration) (d : PointDecl) (id : ObjectId) :
    ExtensionPoint where
  id
  uniqueId := Name.qualify p.ns d.localId
  label := d.label
  schema := d.schema
  ns := p.ns
  owner := p.owner
  contributor := p.declaration.contributor
  children := []

/-- The extension that is stored for a declaration, with the roots of its content. -/
def PreparedDeclaration.extension (p : PreparedDeclaration) (d : ExtensionDecl) (id : ObjectId)
    (children : List ObjectId) : Extension where
  id
  simpleId := d.localId
  label := d.label
  target := d.targetIn p.ns
  ns := p.ns
  contributor := p.declaration.contributor
  children

namespace Store

/-! ## Declared trees -/

mutual

/-- The element `id` and all below it are as declared. -/
def Holds (s : Store) (context : ElementContext) (id : ObjectId) : ElementDecl → Prop
  | .mk name properties value children => ∃ ids,
      s.element? id = some
        { id, name, properties, value
          parent := context.parent
          parentKind := context.parentKind
          owner := context.owner
          contributor := context.contributor
          children := ids } ∧
      s.HoldsAll { context with parent := id, parentKind := .element } ids children

/-- One after the other the elements `ids` and all below them are as declared. -/
def HoldsAll (s : Store) (context : ElementContext) (ids : List ObjectId) : List ElementDecl → Prop
  | [] => ids = []
  | e :: es => ∃ id rest, ids = id :: rest ∧ s.Holds context id e ∧ s.HoldsAll context rest es

end

variable {s s' : Store}

mutual

theorem Holds.mono (hkept : ∀ id e, s.element? id = some e → s'.element? id = some e)
    {context : ElementContext} {id : ObjectId} {e : ElementDecl} (h : s.Holds context id e) :
    s'.Holds context id e := by
  cases e with
  | mk name properties value children =>
    obtain ⟨ids, helement, hbelow⟩ := h
    exact ⟨ids, hkept id _ helement, HoldsAll.mono hkept hbelow⟩

theorem HoldsAll.mono (hkept : ∀ id e, s.element? id = some e → s'.element? id = some e)
    {context : ElementContext} {ids : List ObjectId} {es : List ElementDecl}
    (h : s.HoldsAll context ids es) : s'.HoldsAll context ids es := by
  cases es with
  | nil => exact h
  | cons e es =>
    obtain ⟨id, rest, hids, he, hrest⟩ := h
    exact ⟨id, rest, hids, Holds.mono hkept he, HoldsAll.mono hkept hrest⟩

end

theorem Grows.element?_kept {ids : List ObjectId} (h : Grows s s' ids) (id : ObjectId) (e : Element)
    (he : s.element? id = some e) : s'.element? id = some e := by
  rw [element?_eq_some_iff] at he ⊢
  exact (h.kept id (index_lt_of_object? he)).trans he

theorem Grows.extension?_kept {ids : List ObjectId} (h : Grows s s' ids) {id : ObjectId}
    {e : Extension} (he : s.extension? id = some e) : s'.extension? id = some e := by
  rw [extension?_eq_some_iff] at he ⊢
  exact (h.kept id (index_lt_of_object? he)).trans he

theorem element?_put_of_free {o : RegistryObject} (hfree : s.object? o.id = none) (id : ObjectId)
    (e : Element) (he : s.element? id = some e) : (s.put o false).element? id = some e := by
  rw [element?_eq_some_iff] at he ⊢
  rw [object?_put, if_neg, he]
  rintro rfl
  rw [hfree] at he
  cases he

mutual

theorem holds_addElement (s : Store) (context : ElementContext) (e : ElementDecl)
    (hn : (s.addElement context e).2.nextId ≤ UInt32.size) :
    (s.addElement context e).2.Holds context (s.addElement context e).1 e := by
  have hlt := nextId_le_addElement s context e
  cases e with
  | mk name properties value children =>
    have hsize : s.nextId < UInt32.size := by omega
    simp only [addElement] at hn ⊢
    rw [nextId_put] at hn
    have hn' : (s.allocate.2.addElements { context with
        parent := s.allocate.1, parentKind := .element } children).2.nextId ≤ UInt32.size := by
      omega
    have hgrows := (grows_addElements _ _ _ hn').1
    have hbelow := holds_addElements _ _ _ hn'
    exact ⟨_, element?_eq_some_iff.2 (by rw [object?_put]; exact if_pos rfl),
      hbelow.mono (element?_put_of_free (hgrows.object?_allocate hsize))⟩

theorem holds_addElements (s : Store) (context : ElementContext) (es : List ElementDecl)
    (hn : (s.addElements context es).2.nextId ≤ UInt32.size) :
    (s.addElements context es).2.HoldsAll context (s.addElements context es).1 es := by
  cases es with
  | nil => rfl
  | cons e es =>
    simp only [addElements] at hn ⊢
    have hle := nextId_le_addElements (s.addElement context e).2 context es
    have hfirst := holds_addElement s context e (by omega)
    have hgrows := (grows_addElements _ context es hn).1
    exact ⟨_, _, rfl, hfirst.mono hgrows.element?_kept, holds_addElements _ context es hn⟩

end

/-! ## Declared extensions -/

/-- The extension `id` with its content is as declared. -/
def HoldsExtension (s : Store) (p : PreparedDeclaration) (id : ObjectId) (d : ExtensionDecl) :
    Prop :=
  ∃ children, s.extension? id = some (p.extension d id children) ∧
    s.HoldsAll (contentContext p id) children d.content

theorem HoldsExtension.mono {p : PreparedDeclaration} {id : ObjectId} {d : ExtensionDecl}
    (hextension : ∀ id e, s.extension? id = some e → s'.extension? id = some e)
    (helement : ∀ id e, s.element? id = some e → s'.element? id = some e)
    (h : s.HoldsExtension p id d) : s'.HoldsExtension p id d := by
  obtain ⟨children, he, hbelow⟩ := h
  exact ⟨children, hextension id _ he, hbelow.mono helement⟩

theorem holds_addExtension (p : PreparedDeclaration) (s : Store) (d : ExtensionDecl)
    (hn : (addExtension p s d).2.nextId ≤ UInt32.size) :
    (addExtension p s d).2.HoldsExtension p (addExtension p s d).1 d := by
  have hlt := nextId_lt_addExtension p s d
  have hsize : s.nextId < UInt32.size := by omega
  simp only [addExtension] at hn ⊢
  rw [nextId_put] at hn
  have hn' : (s.allocate.2.addElements (contentContext p s.allocate.1) d.content).2.nextId ≤
      UInt32.size := by omega
  have hgrows := (grows_addElements _ _ _ hn').1
  exact ⟨_, extension?_eq_some_iff.2 (by rw [object?_put]; exact if_pos rfl),
    (holds_addElements _ _ _ hn').mono (element?_put_of_free (hgrows.object?_allocate hsize))⟩

theorem forall₂_addExtensions (p : PreparedDeclaration) (s : Store) (ds : List ExtensionDecl)
    (hn : (Transaction.addExtensions p s ds).2.nextId ≤ UInt32.size) :
    List.Forall₂ ((Transaction.addExtensions p s ds).2.HoldsExtension p)
      (Transaction.addExtensions p s ds).1 ds := by
  induction ds generalizing s with
  | nil => exact .nil
  | cons d ds ih =>
    simp only [addExtensions_cons] at hn ⊢
    have hle := nextId_le_addExtensions p (addExtension p s d).2 ds
    have hgrows := (grows_addExtensions p (addExtension p s d).2 ds hn).1
    exact .cons ((holds_addExtension p s d (by omega)).mono (fun _ _ => hgrows.extension?_kept)
      hgrows.element?_kept) (ih _ hn)

end Store

/-! ## Declared points -/

namespace Transaction

theorem pointNamed?_found {s : Store} (hs : s.Sound) (hn : s.nextId < UInt32.size)
    {p : ExtensionPoint} (hid : p.id = s.allocate.1) (hname : s.pointNamed? p.uniqueId = none)
    {u : String} (hu : s.pointNamed? u = none) (hne : p.uniqueId ≠ u) :
    (s.allocate.2.put (.point p) true).pointNamed? u = none := by
  rw [(hs.found hn hid hname).pointNamed?_eq_none_iff]
  intro id q hq
  rw [Store.point?_eq_some_iff, Store.object?_put, Store.object?_allocate] at hq
  split at hq
  · cases hq
    exact hne
  · exact hs.pointNamed?_eq_none_iff.1 hu id q (Store.point?_eq_some_iff.2 hq)

/-- The points that are stored are some of those declared; if all their names are new and no two
are the same, they are all of them. -/
theorem forall₂_addPoints (p : PreparedDeclaration) (t : Transaction) (ds : List PointDecl)
    (hs : t.objects.Sound) (hn : (t.addPoints p ds).2.objects.nextId ≤ UInt32.size) :
    ∃ new : List PointDecl, new.Sublist ds ∧
      List.Forall₂ (fun id d => (t.addPoints p ds).2.objects.point? id = some (p.point d id))
        (t.addPoints p ds).1 new ∧
      ((ds.map fun d => Name.qualify p.ns d.localId).Nodup →
        (∀ d ∈ ds, t.objects.pointNamed? (Name.qualify p.ns d.localId) = none) → new = ds) := by
  induction ds generalizing t with
  | nil => exact ⟨[], .refl _, .nil, fun _ _ => rfl⟩
  | cons d ds ih =>
    simp only [addPoints] at hn ⊢
    split at hn
    · rename_i htaken
      rw [if_pos htaken]
      obtain ⟨new, hsub, hnew, -⟩ := ih (t.report _) hs hn
      refine ⟨new, hsub.cons d, hnew, fun _ hfree => ?_⟩
      rw [hfree d List.mem_cons_self] at htaken
      cases htaken
    · rename_i hfree
      rw [if_neg hfree]
      have hname : t.objects.pointNamed? (Name.qualify p.ns d.localId) = none := by
        simpa using hfree
      have hle := nextId_le_addPoints p _ ds |>.trans hn
      rw [Store.nextId_put, Store.nextId_allocate] at hle
      have hsize : t.objects.nextId < UInt32.size := by omega
      have hs' := hs.found hsize (p := p.point d _) rfl hname
      obtain ⟨new, hsub, hnew, hall⟩ := ih _ hs' hn
      have hpoint : ∀ s₂ ids, Store.Founds (t.objects.allocate.2.put
          (.point (p.point d t.objects.allocate.1)) true) s₂ ids →
          s₂.point? t.objects.allocate.1 = some (p.point d t.objects.allocate.1) := by
        intro s₂ ids hf
        have hself :
            (t.objects.allocate.2.put (.point (p.point d t.objects.allocate.1)) true).object?
            t.objects.allocate.1 = some (.point (p.point d t.objects.allocate.1)) := by
          rw [Store.object?_put]
          exact if_pos rfl
        rw [Store.point?_eq_some_iff, hf.kept _ (Store.index_lt_of_object? hself), hself]
      refine ⟨d :: new, hsub.cons_cons d, .cons (hpoint _ _ (founds_addPoints p _ ds hs' hn)) hnew,
        fun hnodup hnone => ?_⟩
      obtain ⟨hfirst, hrest⟩ := List.nodup_cons.1 hnodup
      rw [hall hrest fun d' hd' => ?_]
      refine pointNamed?_found hs hsize rfl hname (hnone d' (List.mem_cons_of_mem _ hd')) ?_
      intro he
      exact hfirst (List.mem_map.2 ⟨d', hd', he.symm⟩)

end Transaction

end PluginRegistry
