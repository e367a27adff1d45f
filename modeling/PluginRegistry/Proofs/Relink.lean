import PluginRegistry.Proofs.Store

/-!
# Steps that change nothing but links

`Relinked s s'` says that `s'` has the objects of `s` up to the children of its points, the same
index and the same contributions. Every step of linking and unlinking is of this kind, so what does
not speak of children or orphans is carried along them.
-/

namespace PluginRegistry.Store

/-- `s'` differs from `s` at most in the children of points and in the orphans. -/
structure Relinked (s s' : Store) : Prop where
  nextId_eq : s'.nextId = s.nextId
  bare_eq : ∀ id, (s'.object? id).map RegistryObject.bare = (s.object? id).map RegistryObject.bare
  pointIndex_eq : s'.pointIndex = s.pointIndex
  contributions_eq : s'.contributions = s.contributions

namespace Relinked

variable {s s' s'' : Store}

theorem refl (s : Store) : Relinked s s := ⟨rfl, fun _ => rfl, rfl, rfl⟩

theorem trans (h : Relinked s s') (h' : Relinked s' s'') : Relinked s s'' where
  nextId_eq := h'.nextId_eq.trans h.nextId_eq
  bare_eq id := (h'.bare_eq id).trans (h.bare_eq id)
  pointIndex_eq := h'.pointIndex_eq.trans h.pointIndex_eq
  contributions_eq := h'.contributions_eq.trans h.contributions_eq

theorem symm (h : Relinked s s') : Relinked s' s where
  nextId_eq := h.nextId_eq.symm
  bare_eq id := (h.bare_eq id).symm
  pointIndex_eq := h.pointIndex_eq.symm
  contributions_eq := h.contributions_eq.symm

theorem of_slots_eq (hs : s'.slots = s.slots) (hi : s'.pointIndex = s.pointIndex)
    (hc : s'.contributions = s.contributions) : Relinked s s' where
  nextId_eq := by rw [nextId, hs, nextId]
  bare_eq id := by rw [object?, hs, object?]
  pointIndex_eq := hi
  contributions_eq := hc

theorem object?_bare (h : Relinked s s') {id : ObjectId} {o : RegistryObject}
    (ho : s'.object? id = some o) : ∃ o', s.object? id = some o' ∧ o'.bare = o.bare := by
  have hb := h.bare_eq id
  rw [ho, Option.map_some] at hb
  obtain ⟨o', ho', hbare⟩ := Option.map_eq_some_iff.1 hb.symm
  exact ⟨o', ho', hbare⟩

theorem object?_of_kind (h : Relinked s s') {id : ObjectId} {o : RegistryObject}
    (hk : o.kind ≠ .point) (ho : s'.object? id = some o) : s.object? id = some o := by
  obtain ⟨o', ho', hb⟩ := h.object?_bare ho
  rw [ho', RegistryObject.eq_of_bare_eq hk hb]

theorem extension?_eq (h : Relinked s s') (id : ObjectId) :
    s'.extension? id = s.extension? id := by
  refine Option.ext fun e => ?_
  rw [extension?_eq_some_iff, extension?_eq_some_iff]
  exact ⟨h.object?_of_kind nofun, h.symm.object?_of_kind nofun⟩

theorem contribution?_eq (h : Relinked s s') (c : ContributorId) :
    s'.contribution? c = s.contribution? c := by
  rw [contribution?, h.contributions_eq, contribution?]

theorem point? (h : Relinked s s') {id : ObjectId} {p : ExtensionPoint}
    (hp : s'.point? id = some p) : ∃ children, s.point? id = some { p with children } := by
  obtain ⟨o, ho, hb⟩ := h.object?_bare (point?_eq_some_iff.1 hp)
  cases o with
  | point q =>
    simp only [RegistryObject.bare, RegistryObject.point.injEq] at hb
    refine ⟨q.children, ?_⟩
    rw [point?_eq_some_iff, ho]
    have hq : q =
        { ({ q with children := [] } : ExtensionPoint) with children := q.children } := rfl
    rw [hq, hb]
  | extension e => simp [RegistryObject.bare] at hb
  | element e => simp [RegistryObject.bare] at hb

theorem sound (h : Relinked s s') (hs : s.Sound) : s'.Sound where
  id_eq := by
    intro id o ho
    obtain ⟨o', ho', hb⟩ := h.object?_bare ho
    have hid := hs.id_eq ho'
    rwa [← RegistryObject.id_bare, hb, RegistryObject.id_bare] at hid
  index_iff := by
    intro u id
    rw [h.pointIndex_eq, hs.index_iff]
    constructor
    · rintro ⟨p, hp, hu⟩
      obtain ⟨children, hp'⟩ := h.symm.point? hp
      exact ⟨_, hp', hu⟩
    · rintro ⟨p, hp, hu⟩
      obtain ⟨children, hp'⟩ := h.point? hp
      exact ⟨_, hp', hu⟩

end Relinked

/-! ## The operations that linking uses -/

theorem relinked_addOrphans (s : Store) (u : String) (ids : List ObjectId) :
    Relinked s (s.addOrphans u ids) := .of_slots_eq (by simp) (by simp) (by simp)

theorem point?_congr {s s' : Store} (hs : s'.slots = s.slots) (id : ObjectId) :
    s'.point? id = s.point? id := by rw [point?, object?, hs, point?, object?]

theorem pointNamed?_congr {s s' : Store} (hs : s'.slots = s.slots)
    (hi : s'.pointIndex = s.pointIndex) (u : String) : s'.pointNamed? u = s.pointNamed? u := by
  rw [pointNamed?, hi, funext (point?_congr hs), pointNamed?]

/-- `s'` is `s` with other children at the point `p`. -/
structure Regroups (s : Store) (p : ExtensionPoint) (children : List ObjectId) (s' : Store) :
    Prop where
  relinked : Relinked s s'
  point?_eq : ∀ id, s'.point? id = if id = p.id then some { p with children } else s.point? id
  pointNamed?_eq : ∀ u, s'.pointNamed? u =
    if u = p.uniqueId then some { p with children } else s.pointNamed? u

theorem exists_setPointChildren {s : Store} (h : s.Sound) {p : ExtensionPoint}
    (hp : s.point? p.id = some p) (children : List ObjectId) :
    ∃ s', s.setPointChildren p.id children = some ({ p with children }, s') ∧
      s.Regroups p children s' ∧ s'.orphans = s.orphans := by
  obtain ⟨s', hset, hobject, hnext, hindex, hcontributions, horphans⟩ :=
    setPointChildren_of_point hp children
  have hpoint : ∀ id, s'.point? id =
      if id = p.id then some { p with children } else s.point? id := by
    intro id
    rw [Store.point?, hobject, Store.point?]
    split <;> rfl
  refine ⟨s', hset, ⟨⟨hnext, fun id => ?_, hindex, hcontributions⟩, hpoint, fun u => ?_⟩,
    horphans⟩
  · rw [hobject]
    split
    · rename_i e
      rw [e, point?_eq_some_iff.1 hp]
      rfl
    · rfl
  · have hid := h.index_iff.2 ⟨p, hp, rfl⟩
    unfold pointNamed?
    rw [hindex]
    by_cases hu : u = p.uniqueId
    · simp [hu, hid, hpoint]
    · rw [if_neg hu]
      refine Option.bind_congr fun id hi => ?_
      have hne : id ≠ p.id := by
        rintro rfl
        obtain ⟨q, hq, hqu⟩ := h.index_iff.1 hi
        rw [hp] at hq
        cases hq
        exact hu hqu.symm
      rw [hpoint, if_neg hne]

theorem Regroups.of_slots_eq {s s₁ s' : Store} {p : ExtensionPoint} {children : List ObjectId}
    (h : s₁.Regroups p children s') (hs : s₁.slots = s.slots)
    (hi : s₁.pointIndex = s.pointIndex) (hc : s₁.contributions = s.contributions) :
    s.Regroups p children s' where
  relinked := (Relinked.of_slots_eq hs hi hc).trans h.relinked
  point?_eq id := by rw [h.point?_eq, point?_congr hs]
  pointNamed?_eq u := by rw [h.pointNamed?_eq, pointNamed?_congr hs hi]

end PluginRegistry.Store
