import PluginRegistry.Ingest
import PluginRegistry.Proofs.Store

/-!
# What a declaration adds to the slots

`Grows s s' ids` says that `s'` is `s` with new objects in new slots: extensions at `ids` and
elements everywhere else, each above live elements only. Storing trees of elements and storing
extensions both grow a store in this way.
-/

namespace PluginRegistry.Store

/-! ## Ids are never taken back -/

mutual

theorem nextId_le_addElement (s : Store) (context : ElementContext) (e : ElementDecl) :
    s.nextId < (s.addElement context e).2.nextId := by
  cases e with
  | mk name properties value children =>
    have h := nextId_le_addElements s.allocate.2
      { context with parent := s.allocate.1, parentKind := .element } children
    rw [nextId_allocate] at h
    simp only [addElement, nextId_put]
    omega

theorem nextId_le_addElements (s : Store) (context : ElementContext) (es : List ElementDecl) :
    s.nextId ≤ (s.addElements context es).2.nextId := by
  cases es with
  | nil => exact Nat.le_refl _
  | cons e es =>
    have he := nextId_le_addElement s context e
    have hes := nextId_le_addElements (s.addElement context e).2 context es
    simp only [addElements]
    omega

end

/-! ## Content -/

/-- New objects stand behind those of `s`: extensions at `ids`, elements at all other new ids. -/
structure Grows (s s' : Store) (ids : List ObjectId) : Prop where
  le : s.nextId ≤ s'.nextId
  kept : ∀ id, id.index < s.nextId → s'.object? id = s.object? id
  range : ∀ id ∈ ids, s.nextId ≤ id.index ∧ id.index < s'.nextId
  new : ∀ id, s.nextId ≤ id.index → id.index < s'.nextId → ∃ o, s'.object? id = some o ∧
    o.kind = (if id ∈ ids then .extension else .element) ∧
    ∀ child ∈ o.children, s.nextId ≤ child.index ∧ ∃ e, s'.object? child = some (.element e)
  sound : s.Sound → s'.Sound
  pointIndex_eq : s'.pointIndex = s.pointIndex
  contributions_eq : s'.contributions = s.contributions
  orphans_eq : s'.orphans = s.orphans

namespace Grows

variable {s s' s'' : Store} {ids ids' : List ObjectId}

theorem refl (s : Store) : Grows s s [] where
  le := Nat.le_refl _
  kept _ _ := rfl
  range := by simp
  new id h h' := absurd h (by omega)
  sound h := h
  pointIndex_eq := rfl
  contributions_eq := rfl
  orphans_eq := rfl

theorem trans (h : Grows s s' ids) (h' : Grows s' s'' ids') : Grows s s'' (ids ++ ids') where
  le := Nat.le_trans h.le h'.le
  kept id hid := (h'.kept id (Nat.lt_of_lt_of_le hid h.le)).trans (h.kept id hid)
  range id hid := by
    have hle := h.le
    have hle' := h'.le
    rcases List.mem_append.1 hid with hid | hid
    · have := h.range id hid
      omega
    · have := h'.range id hid
      omega
  new id hid hid' := by
    by_cases hlt : id.index < s'.nextId
    · obtain ⟨o, ho, hk, hc⟩ := h.new id hid hlt
      refine ⟨o, (h'.kept id hlt).trans ho, ?_, fun child hchild => ?_⟩
      · have hnew : id ∉ ids' := fun hm => absurd (h'.range id hm).1 (by omega)
        simpa [hnew] using hk
      · obtain ⟨hle, e, he⟩ := hc child hchild
        exact ⟨hle, e, (h'.kept child (index_lt_of_object? he)).trans he⟩
    · obtain ⟨o, ho, hk, hc⟩ := h'.new id (by omega) hid'
      refine ⟨o, ho, ?_, fun child hchild => ?_⟩
      · have hold : id ∉ ids := fun hm => absurd (h.range id hm).2 hlt
        simpa [hold] using hk
      · obtain ⟨hle, he⟩ := hc child hchild
        exact ⟨Nat.le_trans h.le hle, he⟩
  sound hs := h'.sound (h.sound hs)
  pointIndex_eq := h'.pointIndex_eq.trans h.pointIndex_eq
  contributions_eq := h'.contributions_eq.trans h.contributions_eq
  orphans_eq := h'.orphans_eq.trans h.orphans_eq

theorem object?_allocate (h : Grows s.allocate.2 s' []) (hn : s.nextId < UInt32.size) :
    s'.object? s.allocate.1 = none := by
  have hindex : s.allocate.1.index = s.nextId := index_allocate hn
  rw [h.kept _ (by rw [nextId_allocate]; omega), Store.object?_allocate,
    object?_eq_none_of_le (by omega)]

/-- An object is stored at an id handed out before its content was stored. -/
theorem put (hn : s.nextId < UInt32.size) (h : Grows s.allocate.2 s' []) {o : RegistryObject}
    (hid : o.id = s.allocate.1) (hk : o.kind ≠ .point)
    (hc : ∀ child ∈ o.children, s.nextId < child.index ∧ child.index < s'.nextId) :
    Grows s (s'.put o false) (if o.kind = .extension then [o.id] else []) := by
  have hindex : o.id.index = s.nextId := by rw [hid, index_allocate hn]
  have hle : s.nextId + 1 ≤ s'.nextId := by simpa using h.le
  have hnext : (s'.put o false).nextId = s'.nextId := by rw [nextId_put, hindex]; omega
  have hfree : s'.object? o.id = none := by rw [hid, h.object?_allocate hn]
  have hother : ∀ id : ObjectId, id.index ≠ s.nextId →
      (s'.put o false).object? id = s'.object? id := by
    intro id hne
    rw [object?_put, if_neg fun e => hne (by rw [e, hindex])]
  have helement : ∀ child : ObjectId, s.nextId < child.index → child.index < s'.nextId →
      ∃ e, (s'.put o false).object? child = some (.element e) := by
    intro child hlt hlt'
    obtain ⟨c, hc, hck, -⟩ := h.new child (by rw [nextId_allocate]; omega) hlt'
    rw [hother child (by omega), hc]
    cases c with
    | element e => exact ⟨e, rfl⟩
    | point p => simp [RegistryObject.kind] at hck
    | extension e => simp [RegistryObject.kind] at hck
  refine ⟨by omega, fun id hlt => ?_, fun id hmem => ?_, fun id hge hlt => ?_, fun hs => ?_, ?_,
    h.contributions_eq, h.orphans_eq⟩
  · rw [hother id (by omega), h.kept id (by rw [nextId_allocate]; omega), Store.object?_allocate]
  · split at hmem
    · rw [List.mem_singleton] at hmem
      rw [hmem, hindex, hnext]
      omega
    · simp at hmem
  · by_cases he : id.index = s.nextId
    · have hself : id = o.id := ObjectId.index_inj (by rw [he, hindex])
      refine ⟨o, by rw [object?_put, if_pos hself], ?_, fun child hchild => ?_⟩
      · by_cases hext : o.kind = .extension
        · simp [hext, hself]
        · rw [if_neg hext, if_neg List.not_mem_nil]
          cases o with
          | point p => exact absurd rfl hk
          | extension e => exact absurd rfl hext
          | element e => rfl
      · obtain ⟨hlt, hlt'⟩ := hc child hchild
        exact ⟨by omega, helement child hlt hlt'⟩
    · obtain ⟨c, hobject, hck, hcc⟩ := h.new id (by rw [nextId_allocate]; omega) (by omega)
      refine ⟨c, by rw [hother id he, hobject], ?_, fun child hchild => ?_⟩
      · have hne : id ∉ (if o.kind = .extension then [o.id] else []) := by
          split
          · rw [List.mem_singleton]
            rintro rfl
            exact he hindex
          · simp
        simpa [hne] using hck
      · obtain ⟨hle', e, hce⟩ := hcc child hchild
        rw [nextId_allocate] at hle'
        exact ⟨by omega, helement child (by omega) (index_lt_of_object? hce)⟩
  · exact (h.sound hs.allocate).put_content hk hfree false
  · rw [pointIndex_put_of_kind _ _ hk, h.pointIndex_eq]
    rfl

end Grows

mutual

theorem grows_addElement (s : Store) (context : ElementContext) (e : ElementDecl)
    (hn : (s.addElement context e).2.nextId ≤ UInt32.size) :
    Grows s (s.addElement context e).2 [] ∧ (s.addElement context e).1.index = s.nextId := by
  have hlt := nextId_le_addElement s context e
  cases e with
  | mk name properties value children =>
    have hsize : s.nextId < UInt32.size := by omega
    simp only [addElement] at hn ⊢
    rw [nextId_put] at hn
    obtain ⟨hg, hroots⟩ := grows_addElements s.allocate.2
      { context with parent := s.allocate.1, parentKind := .element } children (by omega)
    refine ⟨hg.put hsize rfl nofun fun child hchild => ?_, index_allocate hsize⟩
    have := hroots child hchild
    rw [nextId_allocate] at this
    exact ⟨by omega, this.2⟩

theorem grows_addElements (s : Store) (context : ElementContext) (es : List ElementDecl)
    (hn : (s.addElements context es).2.nextId ≤ UInt32.size) :
    Grows s (s.addElements context es).2 [] ∧ ∀ id ∈ (s.addElements context es).1,
      s.nextId ≤ id.index ∧ id.index < (s.addElements context es).2.nextId := by
  cases es with
  | nil => exact ⟨.refl s, by simp [addElements]⟩
  | cons e es =>
    simp only [addElements] at hn ⊢
    have hle := nextId_le_addElements (s.addElement context e).2 context es
    have hlt := nextId_le_addElement s context e
    obtain ⟨he, hid⟩ := grows_addElement s context e (by omega)
    obtain ⟨hes, hids⟩ := grows_addElements (s.addElement context e).2 context es hn
    refine ⟨he.trans hes, fun id hmem => ?_⟩
    rcases List.mem_cons.1 hmem with rfl | hmem
    · omega
    · have := hids id hmem
      omega

end

/-! ## Extensions -/

/-- What the top elements of an extension are stored for. -/
def contentContext (p : PreparedDeclaration) (id : ObjectId) : ElementContext where
  parent := id
  parentKind := .extension
  owner := p.owner
  contributor := p.declaration.contributor

/-- Stores one extension with its content. -/
def addExtension (p : PreparedDeclaration) (s : Store) (d : ExtensionDecl) : ObjectId × Store :=
  let (id, s) := s.allocate
  let (children, s) := s.addElements (contentContext p id) d.content
  (id, s.put (.extension
    { id
      simpleId := d.localId
      label := d.label
      target := d.targetIn p.ns
      ns := p.ns
      contributor := p.declaration.contributor
      children }) false)

theorem addExtensions_cons (p : PreparedDeclaration) (s : Store) (d : ExtensionDecl)
    (ds : List ExtensionDecl) : Transaction.addExtensions p s (d :: ds) =
      ((addExtension p s d).1 :: (Transaction.addExtensions p (addExtension p s d).2 ds).1,
        (Transaction.addExtensions p (addExtension p s d).2 ds).2) := rfl

theorem nextId_lt_addExtension (p : PreparedDeclaration) (s : Store) (d : ExtensionDecl) :
    s.nextId < (addExtension p s d).2.nextId := by
  have h := nextId_le_addElements s.allocate.2 (contentContext p s.allocate.1) d.content
  rw [nextId_allocate] at h
  simp only [addExtension, nextId_put]
  omega

theorem nextId_le_addExtensions (p : PreparedDeclaration) (s : Store) (ds : List ExtensionDecl) :
    s.nextId ≤ (Transaction.addExtensions p s ds).2.nextId := by
  induction ds generalizing s with
  | nil => exact Nat.le_refl _
  | cons d ds ih =>
    simp only [addExtensions_cons]
    have := nextId_lt_addExtension p s d
    have := ih (addExtension p s d).2
    omega

theorem grows_addExtension (p : PreparedDeclaration) (s : Store) (d : ExtensionDecl)
    (hn : (addExtension p s d).2.nextId ≤ UInt32.size) :
    Grows s (addExtension p s d).2 [(addExtension p s d).1] ∧
      (addExtension p s d).1.index = s.nextId := by
  have hlt := nextId_lt_addExtension p s d
  have hsize : s.nextId < UInt32.size := by omega
  simp only [addExtension] at hn ⊢
  rw [nextId_put] at hn
  obtain ⟨hg, hroots⟩ :=
    grows_addElements s.allocate.2 (contentContext p s.allocate.1) d.content (by omega)
  refine ⟨hg.put hsize rfl nofun fun child hchild => ?_, index_allocate hsize⟩
  have := hroots child hchild
  rw [nextId_allocate] at this
  exact ⟨by omega, this.2⟩

theorem grows_addExtensions (p : PreparedDeclaration) (s : Store) (ds : List ExtensionDecl)
    (hn : (Transaction.addExtensions p s ds).2.nextId ≤ UInt32.size) :
    Grows s (Transaction.addExtensions p s ds).2 (Transaction.addExtensions p s ds).1 ∧
      (Transaction.addExtensions p s ds).1.Pairwise (·.index < ·.index) := by
  induction ds generalizing s with
  | nil => exact ⟨.refl s, .nil⟩
  | cons d ds ih =>
    simp only [addExtensions_cons] at hn ⊢
    have hle := nextId_le_addExtensions p (addExtension p s d).2 ds
    obtain ⟨hrest, hsorted⟩ := ih _ hn
    obtain ⟨hfirst, hid⟩ := grows_addExtension p s d (by omega)
    refine ⟨hfirst.trans hrest, List.pairwise_cons.2 ⟨fun id hmem => ?_, hsorted⟩⟩
    have := (hrest.range id hmem).1
    have := (hfirst.range _ List.mem_cons_self).2
    omega

end PluginRegistry.Store
