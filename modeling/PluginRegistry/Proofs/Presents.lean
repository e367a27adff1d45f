import Mathlib.Algebra.GroupWithZero.Nat
import PluginRegistry.Proofs.Contents
import PluginRegistry.Proofs.Declared
import PluginRegistry.Proofs.Writes

/-!
# What declarations make visible

A view of a point or of an extension is all that was declared of it, without ids. A store presents
some declarations if its points and its extensions, in the order of their ids, have the views that
were declared, in the order declared (`Store.Presents`). Taking one more declaration in makes the
store present it as well, as long as its points have new names (`Transaction.presents_ingest`).
-/

namespace PluginRegistry

/-! ## How many ids a declaration needs -/

theorem ObjectId.index_ofIndex_le (n : Nat) : (ofIndex n).index ≤ n := by
  simpa [ofIndex, index] using Nat.mod_le n _

mutual

/-- The number of elements in a declared tree. -/
def ElementDecl.size : ElementDecl → Nat
  | .mk _ _ _ children => 1 + ElementDecl.sizeAll children

def ElementDecl.sizeAll : List ElementDecl → Nat
  | [] => 0
  | e :: es => e.size + ElementDecl.sizeAll es

end

def ExtensionDecl.size (d : ExtensionDecl) : Nat := 1 + ElementDecl.sizeAll d.content

def Declaration.size (d : Declaration) : Nat :=
  d.points.length + (d.extensions.map ExtensionDecl.size).sum

namespace Store

mutual

theorem nextId_addElement (s : Store) (context : ElementContext) (e : ElementDecl) :
    (s.addElement context e).2.nextId = s.nextId + e.size := by
  cases e with
  | mk name properties value children =>
    have hchildren := nextId_addElements s.allocate.2
      { context with parent := s.allocate.1, parentKind := .element } children
    have hindex : s.allocate.1.index ≤ s.nextId := ObjectId.index_ofIndex_le _
    rw [nextId_allocate] at hchildren
    simp only [addElement, nextId_put, RegistryObject.id, ElementDecl.size]
    omega

theorem nextId_addElements (s : Store) (context : ElementContext) (es : List ElementDecl) :
    (s.addElements context es).2.nextId = s.nextId + ElementDecl.sizeAll es := by
  cases es with
  | nil => rfl
  | cons e es =>
    have hfirst := nextId_addElement s context e
    have hrest := nextId_addElements (s.addElement context e).2 context es
    simp only [addElements, ElementDecl.sizeAll]
    omega

end

theorem nextId_addExtensions (p : PreparedDeclaration) (s : Store) (ds : List ExtensionDecl) :
    (Transaction.addExtensions p s ds).2.nextId = s.nextId + (ds.map ExtensionDecl.size).sum := by
  induction ds generalizing s with
  | nil => rfl
  | cons d ds ih =>
    have hcontent := nextId_addElements s.allocate.2 (contentContext p s.allocate.1) d.content
    have hindex : s.allocate.1.index ≤ s.nextId := ObjectId.index_ofIndex_le _
    rw [nextId_allocate] at hcontent
    have hfirst : (addExtension p s d).2.nextId = s.nextId + d.size := by
      simp only [addExtension, nextId_put, RegistryObject.id, ExtensionDecl.size]
      omega
    rw [addExtensions_cons, ih, hfirst, List.map_cons, List.sum_cons]
    omega

end Store

namespace Transaction

theorem nextId_addPoints_le (p : PreparedDeclaration) (t : Transaction) (ds : List PointDecl) :
    (t.addPoints p ds).2.objects.nextId ≤ t.objects.nextId + ds.length := by
  induction ds generalizing t with
  | nil => exact Nat.le_refl _
  | cons d ds ih =>
    simp only [addPoints]
    split
    · exact (ih (t.report _)).trans (by simp)
    · refine (ih _).trans ?_
      have hindex : t.objects.allocate.1.index ≤ t.objects.nextId := ObjectId.index_ofIndex_le _
      simp only [Store.nextId_put, Store.nextId_allocate, RegistryObject.id, List.length_cons]
      omega

theorem nextId_ingest_le (t : Transaction) (p : PreparedDeclaration) :
    (t.ingest p).2.objects.nextId ≤ t.objects.nextId + p.declaration.size := by
  have hpoints := nextId_addPoints_le p t p.declaration.points
  have hextensions := Store.nextId_addExtensions p (t.addPoints p p.declaration.points).2.objects
    p.declaration.extensions
  have hstored : (t.stored p).2.2.objects.nextId = (addExtensions p
      (t.addPoints p p.declaration.points).2.objects p.declaration.extensions).2.nextId := rfl
  rw [← nextId_stored, hstored, hextensions, Declaration.size]
  omega

theorem nextId_ingestAll_le (t : Transaction) (ps : List PreparedDeclaration) :
    (t.ingestAll ps).objects.nextId ≤
      t.objects.nextId + (ps.map (·.declaration.size)).sum := by
  induction ps generalizing t with
  | nil => exact Nat.le_refl _
  | cons p ps ih =>
    have hfirst := nextId_ingest_le t p
    have hrest : ((t.ingest p).2.ingestAll ps).objects.nextId ≤ _ := ih (t.ingest p).2
    have heq : t.ingestAll (p :: ps) = (t.ingest p).2.ingestAll ps := rfl
    rw [heq, List.map_cons, List.sum_cons]
    omega

end Transaction

/-! ## Views -/

/-- All that is declared of an extension point. -/
structure PointView where
  uniqueId : String
  label : String
  schema : Option String
  ns : String
  owner : ContributorId
  contributor : ContributorId
  deriving DecidableEq, Repr

/-- All that is declared of an extension, with the trees of its content. -/
structure ExtensionView where
  contributor : ContributorId
  ns : String
  localId : Option String
  label : String
  target : String
  content : List ElementDecl

/-- A point without its id and its children. -/
def ExtensionPoint.view (p : ExtensionPoint) : PointView :=
  { uniqueId := p.uniqueId, label := p.label, schema := p.schema, ns := p.ns, owner := p.owner
    contributor := p.contributor }

/-- The trees of elements at and below some roots that are at most `depth` high, as they would be
declared. -/
def Store.trees (s : Store) : (depth : Nat) → List ObjectId → List ElementDecl
  | 0, _ => []
  | depth + 1, roots => (roots.filterMap s.element?).map fun e =>
    .mk e.name e.properties e.value (s.trees depth e.children)

/-- An extension without its id, its content as it would be declared. -/
def Store.view (s : Store) (e : Extension) : ExtensionView :=
  { contributor := e.contributor, ns := e.ns, localId := e.simpleId, label := e.label
    target := e.target, content := s.trees s.nextId e.children }

/-- The views of some extensions, each as often as its id is listed. -/
def Store.views (s : Store) (ids : List ObjectId) : List (Option ExtensionView) :=
  ids.map fun id => (s.extension? id).map s.view

namespace PreparedDeclaration

def pointViews (p : PreparedDeclaration) : List PointView :=
  p.declaration.points.map fun d => (p.point d default).view

/-- The declared extensions, each with the declaration it is part of. -/
def extensions (p : PreparedDeclaration) : List (PreparedDeclaration × ExtensionDecl) :=
  p.declaration.extensions.map (p, ·)

/-- The view of an extension that is declared. -/
def view (p : PreparedDeclaration) (d : ExtensionDecl) : ExtensionView :=
  { contributor := p.declaration.contributor, ns := p.ns, localId := d.localId, label := d.label
    target := d.targetIn p.ns, content := d.content }

end PreparedDeclaration

namespace Store

variable {s s' : Store}

mutual

theorem Holds.trees (hdescends : s.Descends) {context : ElementContext} {id : ObjectId}
    {e : ElementDecl} (h : s.Holds context id e) {n : Nat}
    (hn : s.nextId ≤ id.index + n) : s.trees n [id] = [e] := by
  cases e with
  | mk name properties value children =>
    obtain ⟨ids, helement, hbelow⟩ := h
    have hlt := index_lt_of_object? (element?_eq_some_iff.1 helement)
    cases n with
    | zero => omega
    | succ n =>
      have hchildren := HoldsAll.trees hdescends hbelow (n := n) fun child hchild => by
        have hdown := hdescends id child (mem_elementChildren_iff.2 ⟨_, helement, hchild⟩)
        omega
      simp only [Store.trees, List.filterMap_cons, helement, List.filterMap_nil, List.map_cons,
        List.map_nil, hchildren]

theorem HoldsAll.trees (hdescends : s.Descends) {context : ElementContext} {ids : List ObjectId}
    {es : List ElementDecl} (h : s.HoldsAll context ids es) {n : Nat}
    (hn : ∀ id ∈ ids, s.nextId ≤ id.index + n) : s.trees n ids = es := by
  cases es with
  | nil =>
    rw [h]
    cases n <;> rfl
  | cons e es =>
    obtain ⟨id, rest, rfl, hfirst, hrest⟩ := h
    have he := Holds.trees hdescends hfirst (hn id List.mem_cons_self)
    have hes := HoldsAll.trees hdescends hrest fun x hx => hn x (List.mem_cons_of_mem _ hx)
    cases n with
    | zero => cases he
    | succ n =>
      simp only [Store.trees] at he hes ⊢
      rw [← List.singleton_append, List.filterMap_append, List.map_append, he, hes,
        List.singleton_append]

end

theorem HoldsExtension.view (h : s.Rooted) {p : PreparedDeclaration} {id : ObjectId}
    {d : ExtensionDecl} (hd : s.HoldsExtension p id d) :
    (s.extension? id).map s.view = some (p.view d) := by
  obtain ⟨children, he, hbelow⟩ := hd
  rw [he, Option.map_some, Store.view]
  have hcontent := hbelow.trees h.descends (n := s.nextId) fun _ _ => Nat.le_add_left _ _
  simp only [PreparedDeclaration.extension, hcontent]
  rfl

/-! ## Presenting declarations -/

/-- The points and extensions of a store are those declared, in the order declared. -/
structure Presents (s : Store) (ps : List PreparedDeclaration) : Prop where
  points : ∃ ids, Lists ids (fun id => ∃ p, s.point? id = some p) ∧
    ids.map (fun id => (s.point? id).map ExtensionPoint.view) =
      (ps.flatMap (·.pointViews)).map some
  extensions : ∃ ids, Lists ids (fun id => ∃ e, s.extension? id = some e) ∧
    List.Forall₂ (fun id x => s.HoldsExtension x.1 id x.2) ids (ps.flatMap (·.extensions))

theorem presents_empty : empty.Presents [] where
  points := ⟨[], .nil fun id => by simp [point?_eq_some_iff], rfl⟩
  extensions := ⟨[], .nil fun id => by simp [extension?_eq_some_iff], .nil⟩

theorem Presents.mem_pointViews_iff {ps : List PreparedDeclaration} (h : s.Presents ps)
    {v : PointView} :
    v ∈ ps.flatMap (·.pointViews) ↔ ∃ id p, s.point? id = some p ∧ p.view = v := by
  obtain ⟨ids, hlists, hviews⟩ := h.points
  have hsome : v ∈ ps.flatMap (·.pointViews) ↔ some v ∈ (ps.flatMap (·.pointViews)).map some := by
    simp
  rw [hsome, ← hviews, List.mem_map]
  constructor
  · rintro ⟨id, -, hv⟩
    obtain ⟨p, hp, hpv⟩ := Option.map_eq_some_iff.1 hv
    exact ⟨id, p, hp, hpv⟩
  · rintro ⟨id, p, hp, hv⟩
    exact ⟨id, (hlists.mem_iff id).2 ⟨p, hp⟩, by rw [hp, Option.map_some, hv]⟩

theorem Presents.pointNamed?_eq_none_iff {ps : List PreparedDeclaration} (h : s.Presents ps)
    (hs : s.Sound) {u : String} :
    s.pointNamed? u = none ↔ u ∉ (ps.flatMap (·.pointViews)).map (·.uniqueId) := by
  rw [hs.pointNamed?_eq_none_iff, List.mem_map]
  simp only [h.mem_pointViews_iff]
  constructor
  · rintro hnone ⟨v, ⟨id, p, hp, rfl⟩, hu⟩
    exact hnone id p hp hu
  · intro hnone id p hp hu
    exact hnone ⟨p.view, ⟨id, p, hp, rfl⟩, hu⟩

theorem Relinked.view_eq (h : Relinked s s') (id : ObjectId) :
    (s'.point? id).map ExtensionPoint.view = (s.point? id).map ExtensionPoint.view := by
  cases hp : s'.point? id with
  | none =>
    cases hp' : s.point? id with
    | none => rfl
    | some p =>
      obtain ⟨children, hc⟩ := h.symm.point? hp'
      rw [hp] at hc
      cases hc
  | some p =>
    obtain ⟨children, hc⟩ := h.point? hp
    rw [hc]
    rfl

theorem Relinked.element?_eq (h : Relinked s s') (id : ObjectId) :
    s'.element? id = s.element? id := by
  refine Option.ext fun e => ?_
  rw [element?_eq_some_iff, element?_eq_some_iff]
  exact ⟨h.object?_of_kind nofun, h.symm.object?_of_kind nofun⟩

theorem Presents.congr {ps : List PreparedDeclaration} (h : s.Presents ps)
    (hpoint : ∀ id, (s'.point? id).map ExtensionPoint.view = (s.point? id).map ExtensionPoint.view)
    (hextension : ∀ id, s'.extension? id = s.extension? id)
    (helement : ∀ id, s'.element? id = s.element? id) : s'.Presents ps := by
  obtain ⟨points, hpoints, hviews⟩ := h.points
  obtain ⟨extensions, hextensions, hholds⟩ := h.extensions
  have hlive : ∀ id, (∃ p, s'.point? id = some p) ↔ ∃ p, s.point? id = some p := by
    intro id
    have hview := hpoint id
    cases hp : s.point? id <;> cases hp' : s'.point? id <;> simp [hp, hp'] at hview ⊢
  refine ⟨⟨points, hpoints.congr hlive, ?_⟩, ⟨extensions, hextensions.congr fun id => ?_, ?_⟩⟩
  · rw [← hviews]
    exact List.map_congr_left fun id _ => hpoint id
  · rw [hextension]
  · exact hholds.imp fun id x hx =>
      hx.mono (fun id e he => (hextension id).trans he) fun id e he => (helement id).trans he

/-- Links are not presented. -/
theorem Presents.relinked {ps : List PreparedDeclaration} (h : s.Presents ps)
    (hr : Relinked s s') : s'.Presents ps :=
  h.congr hr.view_eq hr.extension?_eq hr.element?_eq

end Store

theorem Lists.append {ids ids' : List ObjectId} {P Q : ObjectId → Prop} (h : Lists ids P)
    (h' : Lists ids' Q) (hlt : ∀ x y, P x → Q y → x.index < y.index) :
    Lists (ids ++ ids') fun x => P x ∨ Q x where
  sorted := List.pairwise_append.2 ⟨h.sorted, h'.sorted, fun x hx y hy =>
    hlt x y ((h.mem_iff x).1 hx) ((h'.mem_iff y).1 hy)⟩
  mem_iff x := by rw [List.mem_append, h.mem_iff, h'.mem_iff]

theorem map_eq_map_of_forall₂ {α β γ : Type} {R : α → β → Prop} {f : α → γ} {g : β → γ}
    {as : List α} {bs : List β} (h : List.Forall₂ R as bs) (hR : ∀ a b, R a b → f a = g b) :
    as.map f = bs.map g := by
  rw [← List.forall₂_eq_eq_eq, List.forall₂_map_left_iff, List.forall₂_map_right_iff]
  exact h.imp hR

namespace Store

section

variable {s s₁ s₂ : Store} {points extensions : List ObjectId}

theorem object?_of_grown (hp : Founds s s₁ points) (he : Grows s₁ s₂ extensions) {id : ObjectId}
    {o : RegistryObject} (ho : s.object? id = some o) : s₂.object? id = some o :=
  (object?_of_old hp he (index_lt_of_object? ho)).trans ho

theorem point?_of_founded (hp : Founds s s₁ points) (he : Grows s₁ s₂ extensions) {id : ObjectId}
    (hid : id ∈ points) : s₂.point? id = s₁.point? id := by
  rw [Store.point?, he.kept id ((hp.lists.mem_iff id).1 hid).2, ← Store.point?]

theorem exists_point?_grown_iff (hp : Founds s s₁ points) (he : Grows s₁ s₂ extensions)
    {id : ObjectId} : (∃ q, s₂.point? id = some q) ↔ (∃ q, s.point? id = some q) ∨ id ∈ points := by
  constructor
  · rintro ⟨q, hq⟩
    rcases point?_grown hp he hq with ⟨-, hq⟩ | ⟨hid, -⟩
    · exact .inl ⟨q, hq⟩
    · exact .inr hid
  · rintro (⟨q, hq⟩ | hid)
    · exact ⟨q, point?_eq_some_iff.2 (object?_of_grown hp he (point?_eq_some_iff.1 hq))⟩
    · obtain ⟨q, hq, -⟩ := hp.new id hid
      exact ⟨q, by rw [point?_of_founded hp he hid, hq]⟩

theorem exists_extension?_grown_iff (hp : Founds s s₁ points) (he : Grows s₁ s₂ extensions)
    (hlive : ∀ id ∈ extensions, ∃ e, s₂.extension? id = some e) {id : ObjectId} :
    (∃ e, s₂.extension? id = some e) ↔ (∃ e, s.extension? id = some e) ∨ id ∈ extensions := by
  constructor
  · rintro ⟨e, hid⟩
    rcases object?_grown hp he (extension?_eq_some_iff.1 hid) with
      ⟨-, ho⟩ | ⟨-, q, hq, -⟩ | ⟨-, hkind, -⟩
    · exact .inl ⟨e, extension?_eq_some_iff.2 ho⟩
    · cases hq
    · by_contra hneither
      rw [if_neg fun hmem => hneither (.inr hmem)] at hkind
      cases hkind
  · rintro (⟨e, hid⟩ | hid)
    · exact ⟨e, extension?_eq_some_iff.2 (object?_of_grown hp he (extension?_eq_some_iff.1 hid))⟩
    · exact hlive id hid

theorem Presents.grown {ps : List PreparedDeclaration} (h : s.Presents ps)
    {p : PreparedDeclaration} (hp : Founds s s₁ points) (he : Grows s₁ s₂ extensions)
    (hsorted : extensions.Pairwise (·.index < ·.index))
    (hpoints : List.Forall₂ (fun id d => s₁.point? id = some (p.point d id)) points
      p.declaration.points)
    (hextensions : List.Forall₂ (s₂.HoldsExtension p) extensions p.declaration.extensions) :
    s₂.Presents (ps ++ [p]) := by
  have hle := hp.le
  obtain ⟨oldPoints, hlists, hviews⟩ := h.points
  obtain ⟨oldExtensions, hlists', hholds⟩ := h.extensions
  constructor
  · refine ⟨oldPoints ++ points, (hlists.append hp.lists ?_).congr fun id => ?_, ?_⟩
    · rintro x y ⟨q, hq⟩ hy
      have hlt := index_lt_of_object? (point?_eq_some_iff.1 hq)
      omega
    · rw [← hp.lists.mem_iff]
      exact exists_point?_grown_iff hp he
    · rw [List.flatMap_append, List.flatMap_singleton, List.map_append, List.map_append, ← hviews]
      congr 1
      · refine List.map_congr_left fun id hid => ?_
        obtain ⟨q, hq⟩ := (hlists.mem_iff id).1 hid
        rw [hq, point?_eq_some_iff.2 (object?_of_grown hp he (point?_eq_some_iff.1 hq))]
      · rw [PreparedDeclaration.pointViews, List.map_map]
        refine map_eq_map_of_forall₂ (List.forall₂_and_left _ _ |>.2 ⟨fun _ => id, hpoints⟩) ?_
        rintro id d ⟨hid, hd⟩
        rw [point?_of_founded hp he hid, hd]
        rfl
  · have hlive : ∀ id ∈ extensions, ∃ e, s₂.extension? id = some e := by
      refine forall_of_forall₂ hextensions ?_
      rintro _ _ ⟨_, hlive, -⟩
      exact ⟨_, hlive⟩
    refine ⟨oldExtensions ++ extensions,
      (hlists'.append ⟨hsorted, fun _ => Iff.rfl⟩ ?_).congr fun id => ?_, ?_⟩
    · rintro x y ⟨e, hx⟩ hy
      have hlt := index_lt_of_object? (extension?_eq_some_iff.1 hx)
      have hge := (he.range y hy).1
      omega
    · exact exists_extension?_grown_iff hp he hlive
    · rw [List.flatMap_append, List.flatMap_singleton]
      refine List.rel_append (hholds.imp fun id x hx => hx.mono (fun id e hid => ?_)
        fun id e hid => ?_) (List.forall₂_map_right_iff.2 hextensions)
      · exact extension?_eq_some_iff.2 (object?_of_grown hp he (extension?_eq_some_iff.1 hid))
      · exact element?_eq_some_iff.2 (object?_of_grown hp he (element?_eq_some_iff.1 hid))

end

end Store

namespace Transaction

open Store (Presents)

variable {t : Transaction}

/-- Taking in one more declaration, whose points have new names. -/
theorem presents_ingest (h : t.objects.Settled) {ps : List PreparedDeclaration}
    (hps : t.objects.Presents ps) (p : PreparedDeclaration)
    (hn : (t.ingest p).2.objects.nextId ≤ UInt32.size)
    (hnames : (((ps ++ [p]).flatMap (·.pointViews)).map (·.uniqueId)).Nodup) :
    (t.ingest p).2.objects.Presents (ps ++ [p]) := by
  obtain ⟨-, t', record, hadds, heq⟩ := settled_ingest h p hn
  rw [← nextId_stored] at hn
  have hle := Store.nextId_le_addExtensions p (t.addPoints p p.declaration.points).2.objects
    p.declaration.extensions
  have hfounds := founds_addPoints p t p.declaration.points h.sound (hle.trans hn)
  obtain ⟨hgrows, hsorted⟩ := Store.grows_addExtensions p _ p.declaration.extensions hn
  obtain ⟨new, -, hpoints, hall⟩ :=
    forall₂_addPoints p t p.declaration.points h.sound (hle.trans hn)
  rw [List.flatMap_append, List.flatMap_singleton, List.map_append, List.nodup_append] at hnames
  obtain ⟨-, hnodup, hdisjoint⟩ := hnames
  have hname : (p.pointViews.map (·.uniqueId)) =
      p.declaration.points.map fun d => Name.qualify p.ns d.localId := by
    rw [PreparedDeclaration.pointViews, List.map_map]
    rfl
  rw [hname] at hnodup hdisjoint
  rw [hall hnodup fun d hd => (hps.pointNamed?_eq_none_iff h.sound).2 fun hmem =>
    hdisjoint _ hmem _ (List.mem_map.2 ⟨d, hd, rfl⟩) rfl] at hpoints
  have hgrown := hps.grown hfounds hgrows hsorted hpoints
    (Store.forall₂_addExtensions p _ p.declaration.extensions hn)
  have hstored : (t.stored p).2.2.objects.Presents (ps ++ [p]) :=
    hgrown.congr (fun _ => rfl) (fun _ => rfl) fun _ => rfl
  rw [heq, objects_report]
  exact hstored.relinked (relinked_of_adds hadds)

theorem presents_ingestAll (h : t.objects.Settled) {ps : List PreparedDeclaration}
    (hps : t.objects.Presents ps) (qs : List PreparedDeclaration)
    (hn : (t.ingestAll qs).objects.nextId ≤ UInt32.size)
    (hnames : (((ps ++ qs).flatMap (·.pointViews)).map (·.uniqueId)).Nodup) :
    (t.ingestAll qs).objects.Presents (ps ++ qs) := by
  induction qs generalizing t ps with
  | nil => rwa [List.append_nil]
  | cons q qs ih =>
    have hn' := (nextId_le_ingestAll (t.ingest q).2 qs).trans hn
    rw [List.append_cons] at hnames ⊢
    have hfirst : (((ps ++ [q]).flatMap (·.pointViews)).map (·.uniqueId)).Nodup := by
      rw [List.flatMap_append, List.map_append] at hnames
      exact (List.nodup_append.1 hnames).1
    exact ih (settled_ingest h q hn').1 (presents_ingest h hps q hn' hfirst) hn hnames

end Transaction

end PluginRegistry
