import PluginRegistry.Proofs.Purge
import PluginRegistry.Proofs.Subtrees

/-!
# Content trees

In a `Rooted` store the content of every extension is a tree of live elements: each child is there,
names the object above it as its parent and has a later id, and every live element is in the child
list of a live parent. Storing content plants whole trees (`Sprouts`), linking does not touch them,
and taking a contributor out takes its trees out whole, so a store stays rooted under all writes.
-/

namespace PluginRegistry

theorem ParentKind.objectKind_ne_point (kind : ParentKind) : kind.objectKind ≠ .point := by
  cases kind <;> nofun

namespace Store

/-- The element `child` hangs below the object `id`, and came from the same contributor. -/
def Hangs (s : Store) (child id : ObjectId) (kind : ParentKind) (c : ContributorId) : Prop :=
  id.index < child.index ∧
    ∃ e, s.element? child = some e ∧ e.parent = id ∧ e.parentKind = kind ∧ e.contributor = c

/-- The parent that an element names is live and has it as a child. -/
def IsHeld (s : Store) (id : ObjectId) (e : Element) : Prop :=
  ∃ o, s.object? e.parent = some o ∧ o.kind = e.parentKind.objectKind ∧ id ∈ o.children

/-- All content consists of trees of live elements. -/
structure Rooted (s : Store) : Prop where
  child : ∀ {id o}, s.object? id = some o → o.kind ≠ .point → ∀ child ∈ o.children,
    ∃ kind, ParentKind.objectKind kind = o.kind ∧ s.Hangs child id kind o.contributor
  parent : ∀ {id e}, s.element? id = some e → s.IsHeld id e

theorem rooted_empty : empty.Rooted where
  child h := by simp at h
  parent h := by simp [element?_eq_some_iff] at h

variable {s s' s'' : Store}

/-! ## What follows -/

namespace Rooted

theorem descends (h : s.Rooted) : s.Descends := by
  intro id child hchild
  obtain ⟨e, he, hmem⟩ := mem_elementChildren_iff.1 hchild
  obtain ⟨kind, -, hlt, -⟩ := h.child (element?_eq_some_iff.1 he) nofun child hmem
  exact hlt

theorem below (h : s.Rooted) {id x : ObjectId} {o : RegistryObject} (ho : s.object? id = some o)
    (hk : o.kind ≠ .point) (hx : s.Below o.children x) :
    ∃ e, s.element? x = some e ∧ e.contributor = o.contributor := by
  refine hx.induction (P := fun x => ∃ e, s.element? x = some e ∧ e.contributor = o.contributor)
    (fun child hmem => ?_) (fun above a ih he child hmem => ?_)
  · obtain ⟨kind, -, -, e, he, -, -, hc⟩ := h.child ho hk child hmem
    exact ⟨e, he, hc⟩
  · obtain ⟨a', ha', hc'⟩ := ih
    rw [he] at ha'
    cases ha'
    obtain ⟨kind, -, -, e, hchild, -, -, hc⟩ :=
      h.child (element?_eq_some_iff.1 he) nofun child hmem
    exact ⟨e, hchild, hc.trans hc'⟩

theorem parent_below (h : s.Rooted) {id x : ObjectId} {o : RegistryObject}
    (ho : s.object? id = some o) (hk : o.kind ≠ .point) (hx : s.Below o.children x) {e : Element}
    (he : s.element? x = some e) : e.parent = id ∨ s.Below o.children e.parent := by
  obtain ⟨root, hroot, hpath⟩ := hx
  cases hpath.cases_tail with
  | inl heq =>
    subst heq
    obtain ⟨kind, -, -, e', he', hparent, -⟩ := h.child ho hk x hroot
    rw [he] at he'
    cases he'
    exact .inl hparent
  | inr hlast =>
    obtain ⟨above, habove, hstep⟩ := hlast
    obtain ⟨a, ha, hmem⟩ := mem_elementChildren_iff.1 hstep
    obtain ⟨kind, -, -, e', he', hparent, -⟩ :=
      h.child (element?_eq_some_iff.1 ha) nofun x hmem
    rw [he] at he'
    cases he'
    exact .inr (hparent ▸ ⟨root, hroot, habove⟩)

theorem congr (h : s.Rooted)
    (hsame : ∀ id o, o.kind ≠ .point → (s'.object? id = some o ↔ s.object? id = some o)) :
    s'.Rooted := by
  have helement : ∀ {id e}, s'.element? id = some e ↔ s.element? id = some e := fun {id e} => by
    rw [element?_eq_some_iff, element?_eq_some_iff, hsame id (.element e) nofun]
  constructor
  · intro id o ho hk child hmem
    obtain ⟨kind, hkind, hlt, e, he, hrest⟩ := h.child ((hsame id o hk).1 ho) hk child hmem
    exact ⟨kind, hkind, hlt, e, helement.2 he, hrest⟩
  · intro id e he
    obtain ⟨o, ho, hkind, hmem⟩ := h.parent (helement.1 he)
    have hk : o.kind ≠ .point := hkind ▸ ParentKind.objectKind_ne_point _
    exact ⟨o, (hsame _ o hk).2 ho, hkind, hmem⟩

theorem relinked (h : s.Rooted) (hr : Relinked s s') : s'.Rooted :=
  h.congr fun _ _ hk => ⟨hr.object?_of_kind hk, hr.symm.object?_of_kind hk⟩

end Rooted

/-! ## Planting trees -/

theorem Hangs.kept {child id : ObjectId} {kind : ParentKind} {c : ContributorId}
    (h : s.Hangs child id kind c)
    (hkept : ∀ id, id.index < s.nextId → s'.object? id = s.object? id) :
    s'.Hangs child id kind c := by
  obtain ⟨hlt, e, he, hrest⟩ := h
  rw [element?_eq_some_iff] at he
  refine ⟨hlt, e, ?_, hrest⟩
  rw [element?_eq_some_iff, hkept child (index_lt_of_object? he), he]

theorem IsHeld.kept {id : ObjectId} {e : Element} (h : s.IsHeld id e)
    (hkept : ∀ id, id.index < s.nextId → s'.object? id = s.object? id) : s'.IsHeld id e := by
  obtain ⟨o, ho, hrest⟩ := h
  exact ⟨o, (hkept _ (index_lt_of_object? ho)).trans ho, hrest⟩

/-- `s'` is `s` with new trees whose roots are to hang below the parent in `context`. -/
structure Sprouts (s s' : Store) (context : ElementContext) (roots : List ObjectId) : Prop where
  root : ∀ id ∈ roots, s'.Hangs id context.parent context.parentKind context.contributor
  new : ∀ id, s.nextId ≤ id.index → id.index < s'.nextId → ∃ e, s'.element? id = some e ∧
    e.contributor = context.contributor ∧ (id ∈ roots ∨ s'.IsHeld id e) ∧
    ∀ child ∈ e.children, s'.Hangs child id .element e.contributor

theorem Sprouts.refl (s : Store) (context : ElementContext) : Sprouts s s context [] where
  root := by simp
  new id h h' := absurd h (by omega)

theorem Sprouts.append {context : ElementContext} {ids ids' none : List ObjectId}
    (h : Sprouts s s' context ids) (h' : Sprouts s' s'' context ids') (hg : Grows s' s'' none) :
    Sprouts s s'' context (ids ++ ids') where
  root id hid := by
    rcases List.mem_append.1 hid with hid | hid
    · exact (h.root id hid).kept hg.kept
    · exact h'.root id hid
  new id hge hlt := by
    by_cases hmid : id.index < s'.nextId
    · obtain ⟨e, he, hc, hheld, hchildren⟩ := h.new id hge hmid
      refine ⟨e, ?_, hc, ?_, fun child hmem => (hchildren child hmem).kept hg.kept⟩
      · rw [element?_eq_some_iff] at he ⊢
        exact (hg.kept id hmid).trans he
      · exact hheld.imp (List.mem_append_left ids') (·.kept hg.kept)
    · obtain ⟨e, he, hc, hheld, hchildren⟩ := h'.new id (by omega) hlt
      exact ⟨e, he, hc, hheld.imp_left (List.mem_append_right ids), hchildren⟩

/-- An object is stored above trees that were planted for it: they hang below it, and every
element of them is held. -/
theorem Sprouts.put (hn : s.nextId < UInt32.size) {context : ElementContext} {o : RegistryObject}
    (h : Sprouts s.allocate.2 s' context o.children) (hg : Grows s.allocate.2 s' [])
    (hid : o.id = s.allocate.1) (hparent : context.parent = o.id)
    (hkind : context.parentKind.objectKind = o.kind) :
    (∀ id, id.index ≠ s.nextId → (s'.put o false).object? id = s'.object? id) ∧
      (s'.put o false).object? o.id = some o ∧
      (∀ child ∈ o.children,
        (s'.put o false).Hangs child o.id context.parentKind context.contributor) ∧
      ∀ id, s.nextId < id.index → id.index < s'.nextId →
        ∃ e, (s'.put o false).element? id = some e ∧
        e.contributor = context.contributor ∧ (s'.put o false).IsHeld id e ∧
        ∀ child ∈ e.children, (s'.put o false).Hangs child id .element e.contributor := by
  have hindex : o.id.index = s.nextId := by rw [hid, index_allocate hn]
  have hle : s.nextId + 1 ≤ s'.nextId := by simpa using hg.le
  have hfree : s'.object? o.id = none := by rw [hid, hg.object?_allocate hn]
  have hself : (s'.put o false).object? o.id = some o := by rw [object?_put, if_pos rfl]
  have hother : ∀ id, id ≠ o.id → (s'.put o false).object? id = s'.object? id :=
    fun id hne => by rw [object?_put, if_neg hne]
  have hlive : ∀ {id object}, s'.object? id = some object →
      (s'.put o false).object? id = some object := by
    intro id object hobject
    rw [hother id (by rintro rfl; rw [hfree] at hobject; cases hobject), hobject]
  have hhangs : ∀ {child id kind c}, s'.Hangs child id kind c →
      (s'.put o false).Hangs child id kind c := by
    rintro child id kind c ⟨hlt, e, he, hrest⟩
    exact ⟨hlt, e, element?_eq_some_iff.2 (hlive (element?_eq_some_iff.1 he)), hrest⟩
  refine ⟨fun id hne => hother id fun e => hne (by rw [e, hindex]), hself, fun child hmem => ?_,
    fun id hlt hlt' => ?_⟩
  · have hroot := h.root child hmem
    rw [hparent] at hroot
    exact hhangs hroot
  · obtain ⟨e, he, hc, hheld, hchildren⟩ := h.new id (by rw [nextId_allocate]; omega) hlt'
    refine ⟨e, element?_eq_some_iff.2 (hlive (element?_eq_some_iff.1 he)), hc, ?_,
      fun child hmem => hhangs (hchildren child hmem)⟩
    rcases hheld with hroot | ⟨above, habove, hrest⟩
    · obtain ⟨-, e', he', hp, hk, -⟩ := h.root id hroot
      rw [he] at he'
      cases he'
      exact ⟨o, by rw [hp, hparent, hself], by rw [hk, hkind], hroot⟩
    · exact ⟨above, hlive habove, hrest⟩

theorem Sprouts.element (hn : s.nextId < UInt32.size) {context : ElementContext} {e : Element}
    (h : Sprouts s.allocate.2 s' { context with parent := e.id, parentKind := .element } e.children)
    (hg : Grows s.allocate.2 s' []) (hid : e.id = s.allocate.1)
    (hparent : e.parent = context.parent) (hkind : e.parentKind = context.parentKind)
    (hc : e.contributor = context.contributor) (hlt : context.parent.index < s.nextId) :
    Sprouts s (s'.put (.element e) false) context [e.id] := by
  have hindex : e.id.index = s.nextId := by rw [hid, index_allocate hn]
  have hle : s.nextId + 1 ≤ s'.nextId := by simpa using hg.le
  obtain ⟨-, hself, hroots, hnew⟩ := h.put (o := .element e) hn hg hid rfl rfl
  have helement := element?_eq_some_iff.2 hself
  constructor
  · intro id hmem
    rw [List.mem_singleton.1 hmem]
    exact ⟨by omega, e, helement, hparent, hkind, hc⟩
  · intro id hge hlt'
    have hlt' : id.index < s'.nextId := by
      rw [nextId_put, RegistryObject.id, hindex] at hlt'
      omega
    by_cases hself : id.index = s.nextId
    · have heq : id = e.id := ObjectId.index_inj (by rw [hself, hindex])
      subst heq
      exact ⟨e, helement, hc, .inl (List.mem_singleton_self _), hc ▸ hroots⟩
    · obtain ⟨e', he', hc', hheld, hchildren⟩ := hnew id (by omega) hlt'
      exact ⟨e', he', hc', .inr hheld, hchildren⟩

mutual

theorem sprouts_addElement (s : Store) (context : ElementContext) (e : ElementDecl)
    (hn : (s.addElement context e).2.nextId ≤ UInt32.size)
    (hparent : context.parent.index < s.nextId) :
    Sprouts s (s.addElement context e).2 context [(s.addElement context e).1] := by
  have hlt := nextId_le_addElement s context e
  cases e with
  | mk name properties value children =>
    have hsize : s.nextId < UInt32.size := by omega
    simp only [addElement] at hn ⊢
    rw [nextId_put] at hn
    have hn' : (s.allocate.2.addElements { context with
        parent := s.allocate.1, parentKind := .element } children).2.nextId ≤ UInt32.size := by
      omega
    have hsprouts := sprouts_addElements _ _ _ hn' (by simp [index_allocate hsize])
    exact hsprouts.element hsize (grows_addElements _ _ _ hn').1 rfl rfl rfl rfl hparent

theorem sprouts_addElements (s : Store) (context : ElementContext) (es : List ElementDecl)
    (hn : (s.addElements context es).2.nextId ≤ UInt32.size)
    (hparent : context.parent.index < s.nextId) :
    Sprouts s (s.addElements context es).2 context (s.addElements context es).1 := by
  cases es with
  | nil => exact .refl s context
  | cons e es =>
    simp only [addElements] at hn ⊢
    have hlt := nextId_le_addElement s context e
    have hle := nextId_le_addElements (s.addElement context e).2 context es
    exact (sprouts_addElement s context e (by omega) hparent).append
      (sprouts_addElements _ context es hn (by omega)) (grows_addElements _ context es hn).1

end

/-! ## Whole declarations -/

theorem Sprouts.extension (hn : s.nextId < UInt32.size) {context : ElementContext} {e : Extension}
    (h : Sprouts s.allocate.2 s' context e.children) (hg : Grows s.allocate.2 s' [])
    (hid : e.id = s.allocate.1) (hparent : context.parent = e.id)
    (hkind : context.parentKind = .extension) (hc : context.contributor = e.contributor)
    (hs : s.Rooted) : (s'.put (.extension e) false).Rooted := by
  have hindex : e.id.index = s.nextId := by rw [hid, index_allocate hn]
  have hle : s.nextId + 1 ≤ s'.nextId := by simpa using hg.le
  obtain ⟨hother, hself, hroots, hnew⟩ := h.put (o := .extension e) hn hg hid hparent
    (by rw [hkind]; rfl)
  have hkept : ∀ id, id.index < s.nextId →
      (s'.put (.extension e) false).object? id = s.object? id := fun id hlt => by
    rw [hother id (by omega), hg.kept id (by rw [nextId_allocate]; omega), object?_allocate]
  -- an object of the new store is old, the extension, or an element below it
  have hcases : ∀ {id o}, (s'.put (.extension e) false).object? id = some o →
      s.object? id = some o ∨ (id = e.id ∧ o = .extension e) ∨
        (s.nextId < id.index ∧ id.index < s'.nextId) := by
    intro id o ho
    have hlt := index_lt_of_object? ho
    rw [nextId_put, RegistryObject.id, hindex] at hlt
    rcases Nat.lt_trichotomy id.index s.nextId with hold | heq | hnew
    · exact .inl ((hkept id hold).symm.trans ho)
    · have heq : id = e.id := ObjectId.index_inj (by rw [heq, hindex])
      subst heq
      exact .inr (.inl ⟨rfl, Option.some.inj (ho.symm.trans hself)⟩)
    · exact .inr (.inr ⟨hnew, by omega⟩)
  constructor
  · intro id o ho hk child hmem
    rcases hcases ho with hold | ⟨rfl, rfl⟩ | ⟨hlt, hlt'⟩
    · obtain ⟨kind, hkind, hhangs⟩ := hs.child hold hk child hmem
      exact ⟨kind, hkind, hhangs.kept hkept⟩
    · refine ⟨.extension, rfl, ?_⟩
      have hroot := hroots child hmem
      rwa [hkind, hc] at hroot
    · obtain ⟨a, ha, -, -, hchildren⟩ := hnew id hlt hlt'
      rw [element?_eq_some_iff, ho] at ha
      cases ha
      exact ⟨.element, rfl, hchildren child hmem⟩
  · intro id a ha
    rcases hcases (element?_eq_some_iff.1 ha) with hold | ⟨-, hne⟩ | ⟨hlt, hlt'⟩
    · exact (hs.parent (element?_eq_some_iff.2 hold)).kept hkept
    · cases hne
    · obtain ⟨a', ha', -, hheld, -⟩ := hnew id hlt hlt'
      rw [ha] at ha'
      cases ha'
      exact hheld

theorem rooted_addExtension (h : s.Rooted) (p : PreparedDeclaration) (d : ExtensionDecl)
    (hn : (addExtension p s d).2.nextId ≤ UInt32.size) : (addExtension p s d).2.Rooted := by
  have hlt := nextId_lt_addExtension p s d
  have hsize : s.nextId < UInt32.size := by omega
  simp only [addExtension] at hn ⊢
  rw [nextId_put] at hn
  have hn' : (s.allocate.2.addElements (contentContext p s.allocate.1) d.content).2.nextId ≤
      UInt32.size := by omega
  have hsprouts := sprouts_addElements _ _ _ hn' (by simp [contentContext, index_allocate hsize])
  exact hsprouts.extension hsize (grows_addElements _ _ _ hn').1 rfl rfl rfl rfl h

theorem rooted_addExtensions (h : s.Rooted) (p : PreparedDeclaration) (ds : List ExtensionDecl)
    (hn : (Transaction.addExtensions p s ds).2.nextId ≤ UInt32.size) :
    (Transaction.addExtensions p s ds).2.Rooted := by
  induction ds generalizing s with
  | nil => exact h
  | cons d ds ih =>
    simp only [addExtensions_cons] at hn ⊢
    have hle := nextId_le_addExtensions p (addExtension p s d).2 ds
    exact ih (rooted_addExtension h p d (by omega)) hn

theorem Founds.rooted {ids : List ObjectId} (hf : Founds s s' ids) (h : s.Rooted) : s'.Rooted := by
  refine h.congr fun id o hk => ?_
  by_cases hlt : id.index < s.nextId
  · rw [hf.kept id hlt]
  · constructor
    · intro ho
      have hid := (hf.lists.mem_iff id).2 ⟨by omega, index_lt_of_object? ho⟩
      obtain ⟨p, hp, -⟩ := hf.new id hid
      rw [point?_eq_some_iff.1 hp] at ho
      cases ho
      exact absurd rfl hk
    · intro ho
      exact absurd (index_lt_of_object? ho) hlt

/-! ## Taking trees out -/

theorem Rooted.mem_associated_iff (h : s.Rooted) (ht : s.Typed) {c : ContributorId}
    {known : Contribution} (hc : s.contribution? c = some known) {id : ObjectId} {e : Element}
    (he : s.element? id = some e) : id ∈ s.associated c ↔ e.parent ∈ s.associated c := by
  have hknown := List.mem_of_find?_eq_some hc
  have hobject := element?_eq_some_iff.1 he
  have hextension : ∀ {x o}, x ∈ known.extensions → s.object? x = some o → o.kind ≠ .point := by
    intro x o hx ho
    rw [(ht.extensions known hknown x hx).2 o ho]
    nofun
  rw [Store.mem_associated_iff hc, Store.mem_associated_iff hc]
  simp only [mem_subtree_iff h.descends]
  constructor
  · rintro (hid | hid | ⟨x, hx, o, ho, hid⟩)
    · cases (ht.points known hknown id hid).2 _ hobject
    · cases (ht.extensions known hknown id hid).2 _ hobject
    · rcases h.parent_below ho (hextension hx ho) hid he with hparent | hparent
      · exact .inr (.inl (hparent ▸ hx))
      · exact .inr (.inr ⟨x, hx, o, ho, hparent⟩)
  · obtain ⟨above, habove, hkind, hmem⟩ := h.parent he
    rintro (hid | hid | ⟨x, hx, o, ho, hid⟩)
    · have hk := (ht.points known hknown _ hid).2 _ habove
      exact absurd (hkind.symm.trans hk) (ParentKind.objectKind_ne_point _)
    · exact .inr (.inr ⟨_, hid, above, habove, below_of_mem hmem⟩)
    · obtain ⟨a, ha, -⟩ := h.below ho (hextension hx ho) hid
      rw [element?_eq_some_iff, habove] at ha
      cases ha
      exact .inr (.inr ⟨x, hx, o, ho, hid.child (element?_eq_some_iff.2 habove) hmem⟩)

theorem rooted_remove_associated (h : s.Rooted) (ht : s.Typed) {c : ContributorId}
    {known : Contribution} (hc : s.contribution? c = some known) :
    (s.remove (s.associated c)).2.Rooted := by
  have hleft : ∀ {id o}, (s.remove (s.associated c)).2.object? id = some o ↔
      id ∉ s.associated c ∧ s.object? id = some o := by
    intro id o
    rw [object?_remove]
    split <;> simp [*]
  constructor
  · intro id o ho hk child hmem
    obtain ⟨hid, ho⟩ := hleft.1 ho
    obtain ⟨kind, hkind, hlt, e, he, rfl, hrest⟩ := h.child ho hk child hmem
    refine ⟨kind, hkind, hlt, e, element?_eq_some_iff.2 (hleft.2 ⟨fun hchild => ?_, ?_⟩), rfl,
      hrest⟩
    · exact hid ((h.mem_associated_iff ht hc he).1 hchild)
    · exact element?_eq_some_iff.1 he
  · intro id e he
    obtain ⟨hid, he⟩ := hleft.1 (element?_eq_some_iff.1 he)
    have he := element?_eq_some_iff.2 he
    obtain ⟨o, ho, hrest⟩ := h.parent he
    exact ⟨o, hleft.2 ⟨fun hparent => hid ((h.mem_associated_iff ht hc he).2 hparent), ho⟩, hrest⟩

end Store

namespace Transaction

variable {t : Transaction}

theorem rooted_ingest (h : t.objects.Settled) (hr : t.objects.Rooted) (p : PreparedDeclaration)
    (hn : (t.ingest p).2.objects.nextId ≤ UInt32.size) : (t.ingest p).2.objects.Rooted := by
  obtain ⟨-, t', record, hadds, heq⟩ := settled_ingest h p hn
  rw [← nextId_stored] at hn
  have hle := Store.nextId_le_addExtensions p (t.addPoints p p.declaration.points).2.objects
    p.declaration.extensions
  have hpoints := (founds_addPoints p t _ h.sound (hle.trans hn)).rooted hr
  have hstored : (t.stored p).2.2.objects.Rooted :=
    (Store.rooted_addExtensions hpoints p p.declaration.extensions hn).congr
      fun _ _ _ => Iff.rfl
  rw [heq, objects_report]
  exact hstored.relinked (relinked_of_adds hadds)

theorem rooted_removeContributor (h : t.objects.Settled) (hr : t.objects.Rooted)
    (c : ContributorId) : (t.removeContributor c).2.objects.Rooted := by
  cases hc : t.objects.hasContribution c with
  | false =>
    rw [removeContributor_of_unknown hc]
    exact hr
  | true =>
    obtain ⟨known, hknown⟩ := Option.isSome_iff_exists.1 hc
    obtain ⟨hdrops, -⟩ := linked_unlinkAll h hknown
    have hrelinked := relinked_of_drops hdrops
    have hremoved := Store.rooted_remove_associated (hr.relinked hrelinked)
      (h.typed.relinked hrelinked) ((hrelinked.contribution?_eq c).trans hknown)
    obtain ⟨record, heq⟩ := removeContributor_of_known hc
    rw [heq]
    exact hremoved.congr fun id o _ => by
      rw [objects_report, purged, Store.object?, (Store.frame_removeContribution _ c).1,
        ← Store.object?]

end Transaction

end PluginRegistry
