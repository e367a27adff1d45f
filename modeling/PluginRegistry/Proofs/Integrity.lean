import Mathlib.Tactic.Tauto
import PluginRegistry.Cache.Integrity

/-!
# What the integrity check accepts

`Parts.Intact` says of parts that every id is below the next one and occurs once, and that every
reference leads to an object of the kind it should. `checkIntegrity` accepts these parts and no
others (`checkIntegrity_eq_ok_iff`), so whatever passes the check may be used without looking twice.
-/

namespace PluginRegistry

namespace Parts

/-- One of the objects has this id and this kind. -/
def HasObject (parts : Parts) (kind : ObjectKind) (id : ObjectId) : Prop :=
  ∃ o ∈ parts.objects, o.id = id ∧ o.kind = kind

/-- Every id is below the next one and occurs once, and every reference leads to an object of the
kind it should. -/
structure Intact (parts : Parts) : Prop where
  id_lt : ∀ o ∈ parts.objects, o.id.val < parts.nextId
  ids_distinct : parts.objects.Pairwise (·.id ≠ ·.id)
  child : ∀ o ∈ parts.objects, ∀ id ∈ o.children, parts.HasObject o.childKind id
  parent : ∀ e, .element e ∈ parts.objects → parts.HasObject e.parentKind.objectKind e.parent
  points : ∀ c ∈ parts.contributions, ∀ id ∈ c.points, parts.HasObject .point id
  extensions : ∀ c ∈ parts.contributions, ∀ id ∈ c.extensions, parts.HasObject .extension id
  orphans : ∀ bucket ∈ parts.orphans, ∀ id ∈ bucket.2, parts.HasObject .extension id

end Parts

namespace Cache

/-! ## Checks in a row -/

theorem andThen_eq_ok_iff {x y : Except Error Unit} :
    (do x; y) = .ok () ↔ x = .ok () ∧ y = .ok () := by
  cases x with
  | error e => exact ⟨nofun, fun h => nomatch h.1⟩
  | ok u => exact ⟨fun h => ⟨rfl, h⟩, fun h => h.2⟩

theorem forM_eq_ok_iff {α : Type} {f : α → Except Error Unit} {as : List α} :
    as.forM f = .ok () ↔ ∀ a ∈ as, f a = .ok () := by
  induction as with
  | nil => exact ⟨fun _ a ha => absurd ha List.not_mem_nil, fun _ => rfl⟩
  | cons a as ih =>
    show (do f a; as.forM f) = .ok () ↔ _
    rw [andThen_eq_ok_iff, ih, List.forall_mem_cons]

theorem expectAll_eq_ok_iff {kinds : Kinds} {s : Section} {kind : ObjectKind}
    {ids : List ObjectId} :
    expectAll kinds s kind ids = .ok () ↔ ∀ id ∈ ids, kinds[id]? = some kind := by
  induction ids with
  | nil => exact ⟨fun _ id hid => absurd hid List.not_mem_nil, fun _ => rfl⟩
  | cons id ids ih =>
    rw [expectAll, List.forall_mem_cons]
    split
    · rename_i hid
      rw [ih, and_iff_right hid]
    · rename_i hid
      exact ⟨nofun, fun h => absurd h.1 hid⟩

/-! ## The kinds of the objects -/

theorem getElem?_insertKind (kinds : Kinds) (o : RegistryObject) (id : ObjectId) :
    (kinds.insert o.id o.kind)[id]? = if o.id = id then some o.kind else kinds[id]? := by
  simp [Std.ExtTreeMap.getElem?_insert]

/-- The objects entered with their kinds, without looking whether an id is there already. -/
def kindsOf (kinds : Kinds) (objects : List RegistryObject) : Kinds :=
  objects.foldl (fun kinds o => kinds.insert o.id o.kind) kinds

theorem enterKinds_eq_ok_iff {nextId : UInt32} {kinds kinds' : Kinds}
    {objects : List RegistryObject} : enterKinds nextId kinds objects = .ok kinds' ↔
      (∀ o ∈ objects, o.id.val < nextId) ∧ objects.Pairwise (·.id ≠ ·.id) ∧
        (∀ o ∈ objects, kinds[o.id]? = none) ∧ kindsOf kinds objects = kinds' := by
  induction objects generalizing kinds with
  | nil => simp [enterKinds, kindsOf]
  | cons o objects ih =>
    rw [enterKinds, Std.ExtTreeMap.contains_eq_isSome_getElem?, List.pairwise_cons,
      List.forall_mem_cons, List.forall_mem_cons]
    by_cases hlt : o.id.val < nextId
    · rw [if_pos hlt]
      cases hfree : kinds[o.id]? with
      | some kind => simp
      | none =>
        -- an id that comes later is new after this one is entered if it is another one
        have hnew : (∀ o' ∈ objects, (kinds.insert o.id o.kind)[o'.id]? = none) ↔
            (∀ o' ∈ objects, o.id ≠ o'.id) ∧ ∀ o' ∈ objects, kinds[o'.id]? = none := by
          rw [← forall₂_and]
          refine forall₂_congr fun o' _ => ?_
          rw [getElem?_insertKind]
          split
          · rename_i heq
            simp [heq]
          · rename_i hne
            simp [hne]
        rw [Option.isSome_none, if_neg Bool.false_ne_true, ih, hnew]
        simp only [kindsOf, List.foldl_cons]
        tauto
    · rw [if_neg hlt]
      exact ⟨nofun, fun h => absurd h.1.1 hlt⟩

theorem getElem?_kindsOf {kinds : Kinds} {objects : List RegistryObject}
    (hids : objects.Pairwise (·.id ≠ ·.id)) (hnew : ∀ o ∈ objects, kinds[o.id]? = none)
    (id : ObjectId) (kind : ObjectKind) : (kindsOf kinds objects)[id]? = some kind ↔
      (∃ o ∈ objects, o.id = id ∧ o.kind = kind) ∨ kinds[id]? = some kind := by
  induction objects generalizing kinds with
  | nil => simp [kindsOf]
  | cons o objects ih =>
    obtain ⟨hfirst, hrest⟩ := List.pairwise_cons.1 hids
    have hcons : kindsOf kinds (o :: objects) = kindsOf (kinds.insert o.id o.kind) objects := rfl
    rw [hcons, ih hrest fun o' ho' => ?_]
    · simp only [getElem?_insertKind, List.mem_cons, exists_eq_or_imp]
      by_cases heq : o.id = id
      · have hnone := hnew o List.mem_cons_self
        rw [heq] at hnone
        simp [heq, hnone, or_comm]
      · simp [heq]
    · rw [getElem?_insertKind, if_neg (hfirst o' ho'), hnew o' (List.mem_cons_of_mem _ ho')]

/-! ## The whole check -/

theorem checkReferences_eq_ok_iff {kinds : Kinds} {object : RegistryObject} :
    checkReferences kinds object = .ok () ↔
      (∀ id ∈ object.children, kinds[id]? = some object.childKind) ∧
        ∀ e, .element e = object → kinds[e.parent]? = some e.parentKind.objectKind := by
  unfold checkReferences
  rw [andThen_eq_ok_iff, expectAll_eq_ok_iff]
  refine and_congr_right fun _ => ?_
  cases object with
  | point p => exact ⟨fun _ => nofun, fun _ => rfl⟩
  | extension e => exact ⟨fun _ => nofun, fun _ => rfl⟩
  | element e =>
    show expectAll _ _ _ _ = .ok () ↔ _
    simp [expectAll_eq_ok_iff]

/-- The check accepts the intact parts and no others. -/
theorem checkIntegrity_eq_ok_iff {parts : Parts} :
    checkIntegrity parts = .ok () ↔ parts.Intact := by
  have hkind : parts.objects.Pairwise (·.id ≠ ·.id) → ∀ kind id,
      (kindsOf ∅ parts.objects)[id]? = some kind ↔ parts.HasObject kind id := by
    intro hids kind id
    rw [getElem?_kindsOf hids (by simp)]
    simp [Parts.HasObject]
  have henter : checkIntegrity parts = .ok () ↔
      (∀ o ∈ parts.objects, o.id.val < parts.nextId) ∧ parts.objects.Pairwise (·.id ≠ ·.id) ∧
        (do
          parts.objects.forM (checkReferences (kindsOf ∅ parts.objects))
          parts.contributions.forM fun c => do
            expectAll (kindsOf ∅ parts.objects) .contributions .point c.points
            expectAll (kindsOf ∅ parts.objects) .contributions .extension c.extensions
          parts.orphans.forM fun bucket =>
            expectAll (kindsOf ∅ parts.objects) .orphans .extension bucket.2) = .ok () := by
    unfold checkIntegrity
    cases henter : enterKinds parts.nextId ∅ parts.objects with
    | error e =>
      refine ⟨nofun, fun h => ?_⟩
      rw [enterKinds_eq_ok_iff.2 ⟨h.1, h.2.1, by simp, rfl⟩] at henter
      cases henter
    | ok kinds =>
      obtain ⟨hlt, hids, -, rfl⟩ := enterKinds_eq_ok_iff.1 henter
      exact ⟨fun h => ⟨hlt, hids, h⟩, fun h => h.2.2⟩
  rw [henter]
  simp only [andThen_eq_ok_iff, forM_eq_ok_iff, checkReferences_eq_ok_iff, expectAll_eq_ok_iff]
  constructor
  · rintro ⟨hlt, hids, hobjects, hcontributions, horphans⟩
    have hkind := hkind hids
    exact
      { id_lt := hlt
        ids_distinct := hids
        child := fun o ho id hid => (hkind _ _).1 ((hobjects o ho).1 id hid)
        parent := fun e he => (hkind _ _).1 ((hobjects _ he).2 e rfl)
        points := fun c hc id hid => (hkind _ _).1 ((hcontributions c hc).1 id hid)
        extensions := fun c hc id hid => (hkind _ _).1 ((hcontributions c hc).2 id hid)
        orphans := fun bucket hb id hid => (hkind _ _).1 (horphans bucket hb id hid) }
  · intro h
    have hkind := hkind h.ids_distinct
    refine ⟨h.id_lt, h.ids_distinct, fun o ho => ⟨fun id hid => ?_, ?_⟩, fun c hc =>
      ⟨fun id hid => ?_, fun id hid => ?_⟩, fun bucket hb id hid => ?_⟩
    · exact (hkind _ _).2 (h.child o ho id hid)
    · rintro e rfl
      exact (hkind _ _).2 (h.parent e ho)
    · exact (hkind _ _).2 (h.points c hc id hid)
    · exact (hkind _ _).2 (h.extensions c hc id hid)
    · exact (hkind _ _).2 (h.orphans bucket hb id hid)

end Cache

end PluginRegistry
