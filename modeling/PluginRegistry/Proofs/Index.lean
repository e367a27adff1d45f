import PluginRegistry.Proofs.Operations

/-!
# What the index answers

The index leads from unique ids to slots. It is kept by `put` and `removeOne` and made anew by
`ofParts`, but an object that takes the slot of another leaves the names that lead there as they
are. So the index answers a name with a point of another name after a point was put where such a
name leads, and only then (`Store.truthful_of_respected`). As long as no id is used again for an
object, every answer has the name that was asked for.
-/

namespace PluginRegistry.Store

variable {s s' : Store} {operation : Operation} {operations : List Operation}

/-- What is found under a name is a live object in the slot of its id and has that name. -/
def Truthful (s : Store) : Prop :=
  ∀ u p, s.pointNamed? u = some p → s.object? p.id = some (.point p) ∧ p.uniqueId = u

/-- No other name leads to the slot that the operation puts a point into. -/
def Operation.Respects (s : Store) : Operation → Prop
  | .add (.point p) _ => ∀ u, s.pointIndex[u]? = some p.id → u = p.uniqueId
  | _ => True

/-- That holds for each of the operations when its turn comes. -/
def RespectedBy (s : Store) : List Operation → Prop
  | [] => True
  | operation :: operations =>
    operation.Respects s ∧ (s.perform operation).RespectedBy operations

instance (s : Store) (operation : Operation) : Decidable (operation.Respects s) :=
  match operation with
  | .add (.point p) _ =>
    decidable_of_iff (∀ entry ∈ s.pointIndex.toList, entry.2 = p.id → entry.1 = p.uniqueId)
      ⟨fun h u hu => h (u, p.id) (Std.ExtTreeMap.mem_toList_iff_getElem?_eq_some.2 hu) rfl,
        fun h entry hentry hid => h entry.1
          (hid ▸ Std.ExtTreeMap.mem_toList_iff_getElem?_eq_some.1 hentry)⟩
  | .add (.extension _) _ | .add (.element _) _ | .allocate | .remove _ | .addContribution _
  | .removeContribution _ | .addOrphan _ _ | .addOrphans _ _ | .removeOrphans _
  | .removeOrphan _ _ => .isTrue trivial

instance decidableRespectedBy (s : Store) : (operations : List Operation) →
    Decidable (s.RespectedBy operations)
  | [] => .isTrue trivial
  | operation :: operations =>
    have := decidableRespectedBy (s.perform operation) operations
    inferInstanceAs (Decidable (operation.Respects s ∧
      (s.perform operation).RespectedBy operations))

/-! ## Operations that store nothing -/

/-- There is no new object and no new name. -/
structure Shrinks (s s' : Store) : Prop where
  object : ∀ id o, s'.object? id = some o → s.object? id = some o
  index : ∀ (u : String) id, s'.pointIndex[u]? = some id → s.pointIndex[u]? = some id

namespace Shrinks

theorem of_eq (hslots : s'.slots = s.slots) (hindex : s'.pointIndex = s.pointIndex) :
    Shrinks s s' where
  object id o h := by rwa [object?, hslots] at h
  index u id h := by rwa [hindex] at h

theorem trans {s'' : Store} (h : Shrinks s s') (h' : Shrinks s' s'') : Shrinks s s'' where
  object id o ho := h.object id o (h'.object id o ho)
  index u id hu := h.index u id (h'.index u id hu)

theorem seated (h : Shrinks s s') (hs : s.Seated) : s'.Seated :=
  fun id o ho => hs id o (h.object id o ho)

end Shrinks

theorem shrinks_removeOne (s : Store) (id : ObjectId) : Shrinks s (s.removeOne id).2 where
  object other o ho := by
    rw [object?_removeOne] at ho
    split at ho
    · cases ho
    · exact ho
  index u other hu := by
    unfold removeOne at hu
    split at hu
    · exact hu
    · dsimp only at hu
      split at hu
      · split at hu
        · rw [Std.ExtTreeMap.getElem?_erase] at hu
          split at hu
          · cases hu
          · exact hu
        · exact hu
      · exact hu

theorem shrinks_remove (s : Store) (ids : List ObjectId) : Shrinks s (s.remove ids).2 := by
  induction ids generalizing s with
  | nil => exact .of_eq rfl rfl
  | cons id ids ih => exact (shrinks_removeOne s id).trans (ih (s.removeOne id).2)

theorem shrinks_perform (s : Store) (h : ∀ object indexed, operation ≠ .add object indexed) :
    Shrinks s (s.perform operation) := by
  cases operation with
  | add object indexed => exact absurd rfl (h object indexed)
  | allocate => exact ⟨fun id o ho => by rwa [← object?_allocate], fun u id hu => hu⟩
  | remove ids => exact shrinks_remove s ids
  | addContribution contribution => exact .of_eq rfl rfl
  | removeContribution contributor =>
    obtain ⟨hslots, hindex, -⟩ := frame_removeContribution s contributor
    exact .of_eq hslots hindex
  | addOrphan point extension => exact .of_eq (slots_addOrphans ..) (pointIndex_addOrphans ..)
  | addOrphans point extensions => exact .of_eq (slots_addOrphans ..) (pointIndex_addOrphans ..)
  | removeOrphans point =>
    change Shrinks s (((s.takeOrphans point).map (·.2)).getD s)
    unfold takeOrphans
    cases s.orphansOf? point with
    | none => exact .of_eq rfl rfl
    | some bucket => exact .of_eq rfl rfl
  | removeOrphan point extension =>
    exact .of_eq (slots_removeOrphan ..) (pointIndex_removeOrphan ..)

/-! ## One operation -/

theorem Seated.put (hs : s.Seated) (object : RegistryObject) (indexed : Bool) :
    (s.put object indexed).Seated := fun id o ho => by
  rw [object?_put] at ho
  split at ho
  · rename_i hid
    cases ho
    exact hid.symm
  · exact hs id o ho

theorem Seated.perform (hs : s.Seated) (operation : Operation) : (s.perform operation).Seated := by
  cases operation with
  | add object indexed => exact hs.put object indexed
  | _ => exact (shrinks_perform s (by simp)).seated hs

theorem Seated.performAll (hs : s.Seated) (operations : List Operation) :
    (s.performAll operations).Seated := by
  induction operations generalizing s with
  | nil => exact hs
  | cons operation operations ih => exact ih (hs.perform operation)

theorem Seated.object?_of_pointNamed? (hs : s.Seated) {u : String} {p : ExtensionPoint}
    (h : s.pointNamed? u = some p) : s.object? p.id = some (.point p) := by
  obtain ⟨id, -, hp⟩ := Option.bind_eq_some_iff.1 h
  rw [point?_eq_some_iff] at hp
  have hid : p.id = id := hs id _ hp
  exact hid ▸ hp

/-- If every object is in its slot, then an answer can only be wrong in the name. -/
theorem Seated.truthful_iff (hs : s.Seated) : s.Truthful ↔
    ∀ (u : String) id p, s.pointIndex[u]? = some id → s.object? id = some (.point p) →
      p.uniqueId = u := by
  constructor
  · intro h u id p hu hp
    refine (h u p ?_).2
    rw [pointNamed?, hu]
    exact point?_eq_some_iff.2 hp
  · intro h u p hfound
    obtain ⟨id, hu, hp⟩ := Option.bind_eq_some_iff.1 hfound
    exact ⟨hs.object?_of_pointNamed? hfound, h u id p hu (point?_eq_some_iff.1 hp)⟩

theorem Shrinks.truthful (h : Shrinks s s') (hs : s.Seated) (ht : s.Truthful) : s'.Truthful := by
  rw [hs.truthful_iff] at ht
  rw [(h.seated hs).truthful_iff]
  exact fun u id p hu hp => ht u id p (h.index u id hu) (h.object id _ hp)

theorem pointIndex_put (s : Store) (object : RegistryObject) (indexed : Bool) (u : String)
    (id : ObjectId) (h : (s.put object indexed).pointIndex[u]? = some id) :
    s.pointIndex[u]? = some id ∨ ∃ p, object = .point p ∧ p.uniqueId = u ∧ p.id = id := by
  cases object with
  | extension e => exact .inl h
  | element e => exact .inl h
  | point p =>
    cases indexed with
    | false => exact .inl h
    | true =>
      rw [pointIndex_put_point] at h
      split at h
      · rename_i hu
        exact .inr ⟨p, rfl, hu, Option.some.inj h⟩
      · exact .inl h

/-- An answer becomes wrong exactly when a point takes a slot that another name leads to. -/
theorem truthful_put_iff (hs : s.Seated) (ht : s.Truthful) (object : RegistryObject)
    (indexed : Bool) :
    (s.put object indexed).Truthful ↔ (Operation.add object indexed).Respects s := by
  rw [hs.truthful_iff] at ht
  rw [(hs.put object indexed).truthful_iff]
  constructor
  · intro h
    cases object with
    | extension e => trivial
    | element e => trivial
    | point p =>
      intro u hu
      have hkept : (s.put (.point p) indexed).pointIndex[u]? = some p.id := by
        cases indexed with
        | false => exact hu
        | true => rw [pointIndex_put_point, hu, ite_self]
      exact (h u p.id p hkept (by rw [object?_put]; exact if_pos rfl)).symm
  · intro hrespects u id q hu hq
    rw [object?_put] at hq
    split at hq
    · rename_i hid
      subst hid
      cases hq
      rcases pointIndex_put s _ indexed u _ hu with hled | ⟨p, hp, hname, -⟩
      · exact (hrespects u hled).symm
      · cases hp
        exact hname
    · rename_i hid
      rcases pointIndex_put s object indexed u id hu with hled | ⟨p, rfl, -, hp⟩
      · exact ht u id q hled hq
      · exact absurd hp.symm hid

theorem truthful_perform_iff (hs : s.Seated) (ht : s.Truthful) (operation : Operation) :
    (s.perform operation).Truthful ↔ operation.Respects s := by
  cases operation with
  | add object indexed => exact truthful_put_iff hs ht object indexed
  | _ => exact ⟨fun _ => trivial, fun _ => (shrinks_perform s (by simp)).truthful hs ht⟩

/-! ## One after the other -/

theorem respectedBy_iff (hs : s.Seated) (ht : s.Truthful) (operations : List Operation) :
    s.RespectedBy operations ↔
      ∀ done rest, operations = done ++ rest → (s.performAll done).Truthful := by
  induction operations generalizing s with
  | nil =>
    refine ⟨fun _ done rest h => ?_, fun _ => trivial⟩
    rw [(List.append_eq_nil_iff.1 h.symm).1]
    exact ht
  | cons operation operations ih =>
    constructor
    · rintro ⟨hfirst, hrest⟩ done rest h
      have hnext := (truthful_perform_iff hs ht operation).2 hfirst
      cases done with
      | nil => exact ht
      | cons other done =>
        obtain ⟨rfl, hsplit⟩ := List.cons.inj h
        exact (ih (hs.perform operation) hnext).1 hrest done rest hsplit
    · intro h
      have hnext : (s.perform operation).Truthful := h [operation] operations rfl
      refine ⟨(truthful_perform_iff hs ht operation).1 hnext,
        (ih (hs.perform operation) hnext).2 fun done rest hsplit => ?_⟩
      exact h (operation :: done) rest (congrArg (operation :: ·) hsplit)

/-! ## Ids that are used once -/

def Operation.storedId? : Operation → Option ObjectId
  | .add object _ => some object.id
  | _ => none

theorem pointIndex_perform (s : Store) (operation : Operation) (u : String) (id : ObjectId)
    (h : (s.perform operation).pointIndex[u]? = some id) :
    s.pointIndex[u]? = some id ∨ operation.storedId? = some id := by
  cases operation with
  | add object indexed =>
    refine (pointIndex_put s object indexed u id h).imp_right ?_
    rintro ⟨p, rfl, -, rfl⟩
    rfl
  | _ => exact .inl ((shrinks_perform s (by simp)).index u id h)

theorem respects_of_fresh
    (h : ∀ (u : String) id, s.pointIndex[u]? = some id → operation.storedId? ≠ some id) :
    operation.Respects s := by
  cases operation with
  | add object indexed =>
    cases object with
    | point p => exact fun u hu => absurd rfl (h u p.id hu)
    | extension e => trivial
    | element e => trivial
  | _ => trivial

theorem respectedBy_of_fresh (operations : List Operation)
    (hnames : ∀ (u : String) id, s.pointIndex[u]? = some id →
      id ∉ operations.filterMap Operation.storedId?)
    (honce : (operations.filterMap Operation.storedId?).Nodup) : s.RespectedBy operations := by
  induction operations generalizing s with
  | nil => trivial
  | cons operation operations ih =>
    cases hstored : operation.storedId? with
    | none =>
      rw [List.filterMap_cons_none hstored] at hnames honce
      refine ⟨respects_of_fresh fun u id _ => by simp [hstored], ih (fun u id hu => ?_) honce⟩
      rcases pointIndex_perform s operation u id hu with hold | hnew
      · exact hnames u id hold
      · rw [hstored] at hnew
        cases hnew
    | some own =>
      rw [List.filterMap_cons_some hstored] at hnames honce
      obtain ⟨hown, honce⟩ := List.nodup_cons.1 honce
      refine ⟨respects_of_fresh fun u id hu heq => ?_, ih (fun u id hu => ?_) honce⟩
      · rw [hstored] at heq
        exact hnames u id hu (Option.some.inj heq ▸ List.mem_cons_self)
      · rcases pointIndex_perform s operation u id hu with hold | hnew
        · exact fun hid => hnames u id hold (List.mem_cons_of_mem own hid)
        · rw [hstored] at hnew
          exact Option.some.inj hnew ▸ hown

/-! ## Stores at the start -/

/-- A name leads to a live point of that name. -/
def Indexed (s : Store) : Prop :=
  ∀ (u : String) id, s.pointIndex[u]? = some id →
    ∃ p, s.object? id = some (.point p) ∧ p.uniqueId = u

theorem Indexed.truthful (h : s.Indexed) (hs : s.Seated) : s.Truthful := by
  rw [hs.truthful_iff]
  intro u id p hu hp
  obtain ⟨q, hq, hname⟩ := h u id hu
  rw [hp] at hq
  cases hq
  exact hname

theorem seated_empty : empty.Seated := fun id o h => by simp at h

theorem indexed_empty : empty.Indexed := fun u id h => by simp [empty] at h

theorem seated_foldl_put (objects : List RegistryObject) (hs : s.Seated)
    (hn : s.nextId ≤ UInt32.size) :
    (objects.foldl (fun (s : Store) o => s.put o false) s).Seated ∧
      (objects.foldl (fun (s : Store) o => s.put o false) s).nextId ≤ UInt32.size := by
  induction objects generalizing s with
  | nil => exact ⟨hs, hn⟩
  | cons o objects ih =>
    refine ih (hs.put o false) ?_
    have hlt := o.id.index_lt
    rw [nextId_put]
    omega

theorem getElem?_foldl_index (objects : List RegistryObject)
    (index : Std.ExtTreeMap String ObjectId) {u : String} {id : ObjectId}
    (h : (objects.foldl enterName index)[u]? = some id) :
    index[u]? = some id ∨ ∃ p, .point p ∈ objects ∧ p.uniqueId = u ∧ p.id = id := by
  induction objects generalizing index with
  | nil => exact .inl h
  | cons o objects ih =>
    rcases ih (enterName index o) h with hold | ⟨p, hp, hpoint⟩
    · cases o with
      | extension e => exact .inl hold
      | element e => exact .inl hold
      | point p =>
        rw [enterName, Std.ExtTreeMap.getElem?_insert] at hold
        split at hold
        · rename_i hname
          exact .inr ⟨p, List.mem_cons_self, Std.LawfulEqOrd.eq_of_compare hname,
            Option.some.inj hold⟩
        · exact .inl hold
    · exact .inr ⟨p, List.mem_cons_of_mem _ hp, hpoint⟩

theorem built_ofParts (parts : Parts) : (ofParts parts).Seated ∧ (ofParts parts).Indexed := by
  have hblank : (blank parts.nextId.toNat).Seated := fun id o h => by
    rw [object?_blank] at h
    cases h
  have hnext : (blank parts.nextId.toNat).nextId ≤ UInt32.size := by
    rw [nextId_blank]
    exact parts.nextId.toNat_lt.le
  obtain ⟨hseated, hsize⟩ := seated_foldl_put parts.objects hblank hnext
  refine ⟨hseated, fun u id h => ?_⟩
  rw [ofParts_eq] at h
  dsimp only at h
  rw [indexOf_eq] at h
  rcases getElem?_foldl_index _ ∅ h with hnone | ⟨p, hp, hname, hid⟩
  · simp at hnone
  · exact ⟨p, hid ▸ (hseated.mem_objects_iff hsize).1 hp, hname⟩

/-- Take a new store or one built from parts, and any operations. What the index answers then is a
live object in the slot of its id. It has the name that was asked for, after each of the operations,
exactly if none puts a point into a slot that another name leads to. So it has if no id is stored
twice. -/
theorem truthful_of_respected {start : Store}
    (hstart : start = empty ∨ ∃ parts, start = ofParts parts) (operations : List Operation) :
    (∀ u p, (start.performAll operations).pointNamed? u = some p →
      (start.performAll operations).object? p.id = some (.point p)) ∧
    (start.RespectedBy operations ↔
      ∀ done rest, operations = done ++ rest → (start.performAll done).Truthful) ∧
    ((∀ id ∈ operations.filterMap Operation.storedId?, start.object? id = none) →
      (operations.filterMap Operation.storedId?).Nodup →
      (start.performAll operations).Truthful) := by
  have hbuilt : start.Seated ∧ start.Indexed := by
    rcases hstart with rfl | ⟨parts, rfl⟩
    · exact ⟨seated_empty, indexed_empty⟩
    · exact built_ofParts parts
  obtain ⟨hseated, hindexed⟩ := hbuilt
  have hall := respectedBy_iff hseated (hindexed.truthful hseated) operations
  refine ⟨fun u p hp => (hseated.performAll operations).object?_of_pointNamed? hp, hall,
    fun hfree honce => ?_⟩
  refine hall.1 (respectedBy_of_fresh operations (fun u id hu hid => ?_) honce) operations []
    (List.append_nil operations).symm
  obtain ⟨p, hp, -⟩ := hindexed u id hu
  rw [hfree id hid] at hp
  cases hp

def samplePair : Parts where
  nextId := 2
  objects := [.point ⟨⟨0⟩, "ui.menu", "Menu", none, "ui", ⟨1⟩, ⟨1⟩, []⟩,
    .point ⟨⟨1⟩, "ui.bar", "Bar", none, "ui", ⟨1⟩, ⟨1⟩, []⟩]
  contributions := [⟨⟨1⟩, "ui", [⟨0⟩, ⟨1⟩], []⟩]
  orphans := []

/-- A point moves to another slot, and its old slot and that of the other point are used again. -/
def sampleReuse : List Operation :=
  [.remove [⟨0⟩], .add (.point ⟨⟨2⟩, "ui.menu", "Menu", none, "ui", ⟨1⟩, ⟨1⟩, []⟩) true,
    .add (.point ⟨⟨0⟩, "ui.tools", "Tools", none, "ui", ⟨1⟩, ⟨1⟩, []⟩) true,
    .add (.point ⟨⟨1⟩, "ui.bar", "Bars", none, "ui", ⟨1⟩, ⟨1⟩, []⟩) false]

theorem truthful_sampleReuse :
    (ofParts samplePair).RespectedBy sampleReuse ∧
    ((ofParts samplePair).performAll sampleReuse).Truthful ∧
    (["ui.menu", "ui.bar", "ui.tools"].map fun u =>
      (((ofParts samplePair).performAll sampleReuse).pointNamed? u).map (·.label)) =
        [some "Menu", some "Bars", some "Tools"] := by
  have hrespected : (ofParts samplePair).RespectedBy sampleReuse := by decide +kernel
  have htruthful := (truthful_of_respected (.inr ⟨samplePair, rfl⟩) sampleReuse).2.1.1 hrespected
  exact ⟨hrespected, htruthful sampleReuse [] (List.append_nil sampleReuse).symm,
    by decide +kernel⟩

/-- A point takes the slot of one with another name. -/
def sampleTaken : List Operation :=
  [.add (.point ⟨⟨0⟩, "ui.tools", "Tools", none, "ui", ⟨1⟩, ⟨1⟩, []⟩) false]

/-- It is found under the name of the point that was there. -/
theorem misled_samplePair :
    (Cache.Image.encode samplePair 7).decode 7 = .ok samplePair ∧
    ((ofParts samplePair).performAll sampleTaken).pointNamed? "ui.menu" =
      some ⟨⟨0⟩, "ui.tools", "Tools", none, "ui", ⟨1⟩, ⟨1⟩, []⟩ ∧
    ¬((ofParts samplePair).performAll sampleTaken).Truthful := by
  have hfound : ((ofParts samplePair).performAll sampleTaken).pointNamed? "ui.menu" =
      some ⟨⟨0⟩, "ui.tools", "Tools", none, "ui", ⟨1⟩, ⟨1⟩, []⟩ := by decide +kernel
  exact ⟨by decide +kernel, hfound, fun h => absurd (h _ _ hfound).2 (by decide)⟩

end PluginRegistry.Store
