import Mathlib.Tactic.ByContra
import PluginRegistry.Store.Walk

/-!
# What the operations of a store change

For each operation what it leaves in the slots, the index, the contributions and the orphans.
Two facts hold of a store at all times, also in the middle of a write (`Sound`): an object stands
in the slot of its own id, and the index leads to exactly the live points.
-/

namespace PluginRegistry

namespace RegistryObject

/-- The object without what linking may change. -/
def bare : RegistryObject → RegistryObject
  | .point p => .point { p with children := [] }
  | object => object

@[simp] theorem id_bare (o : RegistryObject) : o.bare.id = o.id := by cases o <;> rfl

@[simp] theorem kind_bare (o : RegistryObject) : o.bare.kind = o.kind := by cases o <;> rfl

theorem kind_eq_of_bare_eq {o o' : RegistryObject} (h : o'.bare = o.bare) : o'.kind = o.kind := by
  rw [← kind_bare, h, kind_bare]

theorem bare_eq_extension_iff {o : RegistryObject} {e : Extension} :
    o.bare = .extension e ↔ o = .extension e := by cases o <;> simp [bare]

theorem bare_eq_element_iff {o : RegistryObject} {e : Element} :
    o.bare = .element e ↔ o = .element e := by cases o <;> simp [bare]

theorem eq_of_bare_eq {o o' : RegistryObject} (hk : o.kind ≠ .point) (h : o'.bare = o.bare) :
    o' = o := by
  cases o with
  | point p => exact absurd rfl hk
  | extension e => exact bare_eq_extension_iff.1 h
  | element e => exact bare_eq_element_iff.1 h

end RegistryObject

namespace Store

/-! ## Slots -/

theorem object?_eq_none_of_le {s : Store} {id : ObjectId} (h : s.nextId ≤ id.index) :
    s.object? id = none := by
  unfold object? nextId at *
  rw [Array.getElem?_eq_none h]
  rfl

theorem index_lt_of_object? {s : Store} {id : ObjectId} {o : RegistryObject}
    (h : s.object? id = some o) : id.index < s.nextId := by
  by_contra hle
  rw [object?_eq_none_of_le (by omega)] at h
  cases h

theorem point?_eq_some_iff {s : Store} {id : ObjectId} {p : ExtensionPoint} :
    s.point? id = some p ↔ s.object? id = some (.point p) := by
  unfold point?
  cases s.object? id with
  | none => simp
  | some o => cases o <;> simp [RegistryObject.point?]

theorem extension?_eq_some_iff {s : Store} {id : ObjectId} {e : Extension} :
    s.extension? id = some e ↔ s.object? id = some (.extension e) := by
  unfold extension?
  cases s.object? id with
  | none => simp
  | some o => cases o <;> simp [RegistryObject.extension?]

theorem element?_eq_some_iff {s : Store} {id : ObjectId} {e : Element} :
    s.element? id = some e ↔ s.object? id = some (.element e) := by
  unfold element?
  cases s.object? id with
  | none => simp
  | some o => cases o <;> simp [RegistryObject.element?]

@[simp] theorem object?_empty (id : ObjectId) : empty.object? id = none := by
  simp [empty, object?]

@[simp] theorem nextId_allocate (s : Store) : s.allocate.2.nextId = s.nextId + 1 := by
  simp [allocate, nextId]

theorem index_allocate {s : Store} (h : s.nextId < UInt32.size) :
    s.allocate.1.index = s.nextId := ObjectId.index_ofIndex h

theorem nextId_put (s : Store) (object : RegistryObject) (indexed : Bool) :
    (s.put object indexed).nextId = max s.nextId (object.id.index + 1) := by
  simp only [put, nextId, slotsUpTo, Array.size_setIfInBounds, Array.size_append,
    Array.size_replicate]
  omega

theorem pointIndex_put_point (s : Store) (p : ExtensionPoint) (u : String) :
    (s.put (.point p) true).pointIndex[u]? =
      if p.uniqueId = u then some p.id else s.pointIndex[u]? := by
  simp [put, Std.ExtTreeMap.getElem?_insert]

theorem pointIndex_put_of_kind (s : Store) {o : RegistryObject} (indexed : Bool)
    (h : o.kind ≠ .point) : (s.put o indexed).pointIndex = s.pointIndex := by
  cases o with
  | point p => exact absurd rfl h
  | extension e => rfl
  | element e => rfl

theorem setPointChildren_of_point {s : Store} {id : ObjectId} {p : ExtensionPoint}
    (h : s.point? id = some p) (children : List ObjectId) :
    ∃ s', s.setPointChildren id children = some ({ p with children }, s') ∧
      (∀ other, s'.object? other =
        if other = id then some (.point { p with children }) else s.object? other) ∧
      s'.nextId = s.nextId ∧ s'.pointIndex = s.pointIndex ∧
      s'.contributions = s.contributions ∧ s'.orphans = s.orphans := by
  refine ⟨{ s with
    slots := s.slots.setIfInBounds id.index (some (.point { p with children }))
    dirty := true }, by rw [setPointChildren, h]; rfl, fun other => ?_, ?_, rfl, rfl, rfl⟩
  · have hlt := index_lt_of_object? (point?_eq_some_iff.1 h)
    simp only [object?, Array.getElem?_setIfInBounds]
    by_cases e : other = id
    · subst e
      unfold nextId at hlt
      simp [hlt]
    · have hi : id.index ≠ other.index := fun x => e (ObjectId.index_inj x).symm
      simp [hi, e]
  · simp [nextId]

theorem object?_remove (s : Store) (ids : List ObjectId) (other : ObjectId) :
    (s.remove ids).2.object? other = if other ∈ ids then none else s.object? other := by
  induction ids generalizing s with
  | nil => simp [remove]
  | cons id ids ih =>
    simp only [remove, ih, object?_removeOne, List.mem_cons]
    by_cases h : other = id
    · simp [h]
    · simp [h]

theorem frame_removeOne (s : Store) (id : ObjectId) :
    (s.removeOne id).2.nextId = s.nextId ∧
      (s.removeOne id).2.contributions = s.contributions ∧
      (s.removeOne id).2.orphans = s.orphans := by
  unfold removeOne
  split
  · exact ⟨rfl, rfl, rfl⟩
  · exact ⟨by simp [nextId], rfl, rfl⟩

theorem frame_remove (s : Store) (ids : List ObjectId) :
    (s.remove ids).2.nextId = s.nextId ∧ (s.remove ids).2.contributions = s.contributions ∧
      (s.remove ids).2.orphans = s.orphans := by
  induction ids generalizing s with
  | nil => exact ⟨rfl, rfl, rfl⟩
  | cons id ids ih =>
    obtain ⟨h1, h2, h3⟩ := ih (s.removeOne id).2
    obtain ⟨g1, g2, g3⟩ := frame_removeOne s id
    exact ⟨h1.trans g1, h2.trans g2, h3.trans g3⟩

/-! ## Orphans -/

theorem orphansOf?_addOrphans (s : Store) (u v : String) (ids : List ObjectId) :
    (s.addOrphans u ids).orphansOf? v =
      if u = v ∧ ids ≠ [] then some ((s.orphansOf? u).getD [] ++ ids) else s.orphansOf? v := by
  unfold addOrphans orphansOf?
  by_cases h : ids = []
  · simp [h]
  · simp [h, Std.ExtTreeMap.getElem?_insert]

theorem takeOrphans_of_some {s : Store} {u : String} {bucket : List ObjectId}
    (h : s.orphansOf? u = some bucket) :
    ∃ s', s.takeOrphans u = some (bucket, s') ∧
      (∀ v, s'.orphansOf? v = if u = v then none else s.orphansOf? v) ∧
      s'.slots = s.slots ∧ s'.pointIndex = s.pointIndex ∧
      s'.contributions = s.contributions := by
  refine ⟨{ s with orphans := s.orphans.erase u, dirty := true },
    by rw [takeOrphans, h]; rfl, fun v => ?_, rfl, rfl, rfl⟩
  simp [orphansOf?, Std.ExtTreeMap.getElem?_erase]

theorem takeOrphans_of_none {s : Store} {u : String} (h : s.orphansOf? u = none) :
    s.takeOrphans u = none := by rw [takeOrphans, h]; rfl

theorem orphansOf?_removeOrphan (s : Store) (u v : String) (id : ObjectId) :
    (s.removeOrphan u id).2.orphansOf? v =
      if u = v then (s.orphansOf? u).bind fun bucket =>
        if bucket.filter (· ≠ id) = [] then none else some (bucket.filter (· ≠ id))
      else s.orphansOf? v := by
  unfold removeOrphan
  cases h : s.orphansOf? u with
  | none =>
    by_cases e : u = v
    · subst e; simp [h]
    · simp [e]
  | some bucket =>
    simp only [orphansOf?, Option.bind_some]
    split
    · simp [Std.ExtTreeMap.getElem?_erase]
    · simp [Std.ExtTreeMap.getElem?_insert]

@[simp] theorem slots_addOrphans (s : Store) (u : String) (ids : List ObjectId) :
    (s.addOrphans u ids).slots = s.slots := by unfold addOrphans; split <;> rfl

@[simp] theorem pointIndex_addOrphans (s : Store) (u : String) (ids : List ObjectId) :
    (s.addOrphans u ids).pointIndex = s.pointIndex := by unfold addOrphans; split <;> rfl

@[simp] theorem contributions_addOrphans (s : Store) (u : String) (ids : List ObjectId) :
    (s.addOrphans u ids).contributions = s.contributions := by unfold addOrphans; split <;> rfl

@[simp] theorem slots_removeOrphan (s : Store) (u : String) (id : ObjectId) :
    (s.removeOrphan u id).2.slots = s.slots := by unfold removeOrphan; split <;> rfl

@[simp] theorem pointIndex_removeOrphan (s : Store) (u : String) (id : ObjectId) :
    (s.removeOrphan u id).2.pointIndex = s.pointIndex := by unfold removeOrphan; split <;> rfl

@[simp] theorem contributions_removeOrphan (s : Store) (u : String) (id : ObjectId) :
    (s.removeOrphan u id).2.contributions = s.contributions := by
  unfold removeOrphan; split <;> rfl

/-! ## Objects in their slots -/

/-- Every object is in the slot of its id. -/
def Seated (s : Store) : Prop := ∀ id o, s.object? id = some o → o.id = id

theorem Seated.mem_objects_iff {s : Store} (hs : s.Seated) (hn : s.nextId ≤ UInt32.size)
    {o : RegistryObject} : o ∈ s.objects ↔ s.object? o.id = some o := by
  simp only [objects, List.mem_filterMap, id, exists_eq_right, Array.mem_toList_iff,
    Array.mem_iff_getElem?]
  constructor
  · rintro ⟨i, hi⟩
    have hlt : i < s.nextId := by
      by_contra hle
      rw [Array.getElem?_eq_none (by unfold nextId at hle; omega)] at hi
      cases hi
    have ho : s.object? (.ofIndex i) = some o := by
      rw [object?, ObjectId.index_ofIndex (by omega), hi]
      rfl
    rwa [hs _ _ ho]
  · intro ho
    exact ⟨o.id.index, Option.join_eq_some_iff.1 ho⟩

/-! ## What holds at all times -/

/-- Every object is in the slot of its id, and the index leads to the live points. -/
structure Sound (s : Store) : Prop where
  id_eq : ∀ {id o}, s.object? id = some o → o.id = id
  index_iff : ∀ {u id}, s.pointIndex[u]? = some id ↔ ∃ p, s.point? id = some p ∧ p.uniqueId = u

theorem sound_empty : Sound empty where
  id_eq h := by simp at h
  index_iff := by simp [empty, point?, object?]

namespace Sound

variable {s s' : Store}

theorem seated (h : s.Sound) : s.Seated := fun _ _ => h.id_eq

theorem point_id (h : s.Sound) {id : ObjectId} {p : ExtensionPoint} (hp : s.point? id = some p) :
    p.id = id := h.id_eq (point?_eq_some_iff.1 hp)

theorem pointNamed?_eq_some_iff (h : s.Sound) {u : String} {p : ExtensionPoint} :
    s.pointNamed? u = some p ↔ s.point? p.id = some p ∧ p.uniqueId = u := by
  unfold pointNamed?
  rw [Option.bind_eq_some_iff]
  constructor
  · rintro ⟨id, hid, hp⟩
    obtain ⟨q, hq, hu⟩ := h.index_iff.1 hid
    rw [hp] at hq
    cases hq
    rw [h.point_id hp]
    exact ⟨hp, hu⟩
  · rintro ⟨hp, hu⟩
    exact ⟨p.id, h.index_iff.2 ⟨p, hp, hu⟩, hp⟩

theorem pointNamed?_eq_none_iff (h : s.Sound) {u : String} :
    s.pointNamed? u = none ↔ ∀ id p, s.point? id = some p → p.uniqueId ≠ u := by
  constructor
  · intro hn id p hp hu
    have hid := h.point_id hp
    subst hid
    rw [h.pointNamed?_eq_some_iff.2 ⟨hp, hu⟩] at hn
    cases hn
  · intro hall
    cases hn : s.pointNamed? u with
    | none => rfl
    | some p =>
      obtain ⟨hp, hu⟩ := h.pointNamed?_eq_some_iff.1 hn
      exact absurd hu (hall _ _ hp)

theorem point_unique (h : s.Sound) {i j : ObjectId} {p q : ExtensionPoint}
    (hp : s.point? i = some p) (hq : s.point? j = some q) (hu : p.uniqueId = q.uniqueId) :
    i = j := by
  have hi := h.index_iff.2 ⟨p, hp, rfl⟩
  have hj := h.index_iff.2 ⟨q, hq, rfl⟩
  rw [hu, hj] at hi
  exact (Option.some.inj hi).symm

theorem id_ne_of_pointNamed? (h : s.Sound) {u : String} {p q : ExtensionPoint}
    (hp : s.point? p.id = some p) (hq : s.pointNamed? u = some q) (hu : u ≠ p.uniqueId) :
    q.id ≠ p.id := by
  intro e
  obtain ⟨hq, hqu⟩ := h.pointNamed?_eq_some_iff.1 hq
  rw [e, hp] at hq
  cases hq
  exact hu hqu.symm

theorem pointIndex_removeOne (h : s.Sound) (id : ObjectId) (u : String) :
    (s.removeOne id).2.pointIndex[u]? =
      if s.pointIndex[u]? = some id then none else s.pointIndex[u]? := by
  have leads : s.pointIndex[u]? = some id → ∃ p, s.object? id = some (.point p) ∧ p.uniqueId = u :=
    fun hi => by simpa only [point?_eq_some_iff] using h.index_iff.1 hi
  unfold Store.removeOne
  cases ho : s.object? id with
  | none =>
    have hn : s.pointIndex[u]? ≠ some id := fun hi => by simpa [ho] using leads hi
    simp [hn]
  | some o =>
    cases o with
    | extension e =>
      have hn : s.pointIndex[u]? ≠ some id := fun hi => by simpa [ho] using leads hi
      simp [hn]
    | element e =>
      have hn : s.pointIndex[u]? ≠ some id := fun hi => by simpa [ho] using leads hi
      simp [hn]
    | point p =>
      have hp : s.pointIndex[p.uniqueId]? = some id :=
        h.index_iff.2 ⟨p, point?_eq_some_iff.2 ho, rfl⟩
      simp only [hp, if_true, Std.ExtTreeMap.getElem?_erase]
      by_cases hu : p.uniqueId = u
      · subst hu
        simp [hp]
      · have hn : s.pointIndex[u]? ≠ some id := fun hi => hu (by simpa [ho] using leads hi)
        simp [hu, hn]

theorem allocate (h : s.Sound) : s.allocate.2.Sound where
  id_eq ho := h.id_eq (by rwa [object?_allocate] at ho)
  index_iff := by
    intro u id
    rw [point?, object?_allocate]
    exact h.index_iff

theorem put_content (h : s.Sound) {o : RegistryObject} (ho : o.kind ≠ .point)
    (hfree : s.object? o.id = none) (indexed : Bool) : (s.put o indexed).Sound where
  id_eq := by
    intro id o' ho'
    rw [object?_put] at ho'
    split at ho'
    · rename_i e
      cases ho'
      exact e.symm
    · exact h.id_eq ho'
  index_iff := by
    intro u id
    rw [pointIndex_put_of_kind s indexed ho, h.index_iff]
    refine exists_congr fun p => and_congr_left fun _ => ?_
    rw [point?_eq_some_iff, point?_eq_some_iff, object?_put]
    split
    · rename_i e
      rw [e, hfree]
      constructor
      · intro hn; cases hn
      · intro hp
        cases hp
        exact absurd rfl ho
    · rfl

theorem put_point (h : s.Sound) {p : ExtensionPoint} (hfree : s.object? p.id = none)
    (hname : s.pointNamed? p.uniqueId = none) : (s.put (.point p) true).Sound where
  id_eq := by
    intro id o ho
    rw [object?_put] at ho
    split at ho
    · rename_i e
      cases ho
      exact e.symm
    · exact h.id_eq ho
  index_iff := by
    intro u id
    rw [pointIndex_put_point]
    simp only [point?_eq_some_iff, object?_put, RegistryObject.id]
    by_cases e : id = p.id
    · subst e
      by_cases hu : p.uniqueId = u
      · simp [hu]
      · have hn : s.pointIndex[u]? ≠ some p.id := by
          intro hi
          obtain ⟨q, hq, -⟩ := h.index_iff.1 hi
          rw [point?_eq_some_iff, hfree] at hq
          cases hq
        simp [hu, hn]
    · by_cases hu : p.uniqueId = u
      · subst hu
        have hn := h.pointNamed?_eq_none_iff.1 hname id
        simp only [if_true, e, if_false, Option.some.injEq, ← point?_eq_some_iff]
        exact ⟨fun hi => absurd hi.symm e, fun ⟨q, hq, hu⟩ => absurd hu (hn q hq)⟩
      · simp only [hu, e, if_false, ← point?_eq_some_iff]
        exact h.index_iff

theorem removeOne (h : s.Sound) (id : ObjectId) : (s.removeOne id).2.Sound where
  id_eq := by
    intro other o ho
    rw [object?_removeOne] at ho
    split at ho
    · cases ho
    · exact h.id_eq ho
  index_iff := by
    intro u other
    rw [h.pointIndex_removeOne]
    simp only [point?_eq_some_iff, object?_removeOne]
    split
    · -- the index forgets the name of the point that goes, and no other point has it
      rename_i hgone
      obtain ⟨q, hq, hu⟩ := h.index_iff.1 hgone
      have other_named : ∀ p, s.point? other = some p → p.uniqueId = u → other = id :=
        fun p hp hpu => h.point_unique hp hq (hpu.trans hu.symm)
      constructor
      · intro hn; cases hn
      · rintro ⟨p, hp, hpu⟩
        split at hp
        · cases hp
        · rename_i hne
          exact absurd (other_named p (point?_eq_some_iff.2 hp) hpu) hne
    · rename_i hstay
      rw [h.index_iff]
      refine exists_congr fun p => ?_
      rw [point?_eq_some_iff]
      by_cases e : other = id
      · subst e
        simp only [if_true]
        constructor
        · rintro ⟨hp, hu⟩
          exact absurd (h.index_iff.2 ⟨p, point?_eq_some_iff.2 hp, hu⟩) hstay
        · rintro ⟨hn, -⟩
          cases hn
      · simp only [e, if_false]

theorem remove (h : s.Sound) (ids : List ObjectId) : (s.remove ids).2.Sound := by
  induction ids generalizing s with
  | nil => exact h
  | cons id ids ih => exact ih (h.removeOne id)

end Sound

/-! ## The list of live objects -/

theorem mem_objects_iff {s : Store} (hs : s.Sound) (hn : s.nextId ≤ UInt32.size)
    {o : RegistryObject} : o ∈ s.objects ↔ s.object? o.id = some o :=
  hs.seated.mem_objects_iff hn

theorem nodup_ids {s : Store} (hs : s.Sound) (hn : s.nextId ≤ UInt32.size) :
    s.objects.Pairwise (·.id ≠ ·.id) := by
  unfold nextId at hn
  -- the id of an object is that of its slot, and no two slots have one id
  have hslot : ∀ i (hi : i < s.slots.toList.length) o, s.slots.toList[i] = some o →
      o.id = .ofIndex i := by
    intro i hi o ho
    rw [Array.length_toList] at hi
    refine hs.id_eq ?_
    rw [object?, ObjectId.index_ofIndex (by omega), ← Array.getElem?_toList,
      List.getElem?_eq_getElem (by simpa using hi), ho]
    rfl
  refine List.pairwise_filterMap.2 (List.pairwise_iff_getElem.2 fun i j hi hj hij a ha b hb e => ?_)
  rw [hslot i hi a ha, hslot j hj b hb] at e
  rw [Array.length_toList] at hi hj
  have hindex := congrArg ObjectId.index e
  rw [ObjectId.index_ofIndex (by omega), ObjectId.index_ofIndex (by omega)] at hindex
  omega

end Store

end PluginRegistry
