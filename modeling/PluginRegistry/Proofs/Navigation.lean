import PluginRegistry.Proofs.Lookups

/-!
# Look-ups and navigation

What is found by the identifier of a point can also be reached from the handle of the point. The
look-ups pass over children of a point that are no live extensions, whereas a handle fails on the
first of them. In whatever comes after an empty registry the children of a point are live, so the
two ways agree, order included (`Registry.navigates_of_succession`).
-/

namespace PluginRegistry

namespace Store

variable {s : Store} {ids : List ObjectId} {look : Resolvers} (hlook : look .live = s.get)

include hlook

theorem object_of_point {id : ObjectId} {p : ExtensionPoint} (h : s.point? id = some p) :
    (⟨.live, id⟩ : PointHandle).object look = .ok p := by
  unfold PointHandle.object Resolver.object
  rw [hlook, Store.get, point?_eq_some_iff.1 h]
  rfl

theorem elements_of_extension {id : ObjectId} {e : Extension} (h : s.extension? id = some e) :
    (⟨.live, id⟩ : ExtensionHandle).elements look =
      .ok (e.children.map (ElementHandle.mk .live)) := by
  rw [ExtensionHandle.elements, object_of_extension hlook h]
  rfl

theorem findNamed_of_live (hlive : ∀ id ∈ ids, ∃ e, s.extension? id = some e) (uniqueId : String) :
    PointHandle.findNamed look uniqueId (ids.map (ExtensionHandle.mk .live)) =
      .ok ((ids.find? fun id =>
        (s.extension? id).any fun e => e.uniqueId? = some uniqueId).map
          (ExtensionHandle.mk .live)) := by
  induction ids with
  | nil => rfl
  | cons id ids ih =>
    obtain ⟨e, he⟩ := hlive id List.mem_cons_self
    have hname : (⟨.live, id⟩ : ExtensionHandle).uniqueId? look = .ok e.uniqueId? := by
      rw [ExtensionHandle.uniqueId?, object_of_extension hlook he]
      rfl
    rw [List.map_cons, PointHandle.findNamed, hname, List.find?_cons, he, Option.any_some]
    change (if e.uniqueId? = some uniqueId then _ else _) = _
    by_cases heq : e.uniqueId? = some uniqueId
    · rw [if_pos heq, heq, decide_eq_true rfl]
      rfl
    · rw [if_neg heq, decide_eq_false heq]
      exact ih fun other hother => hlive other (List.mem_cons_of_mem id hother)

theorem elements_of_live (hlive : ∀ id ∈ ids, ∃ e, s.extension? id = some e) :
    (ids.map (ExtensionHandle.mk .live)).mapM (fun h => h.elements look) =
      .ok ((ids.filterMap s.extension?).map fun e => e.children.map (ElementHandle.mk .live)) := by
  induction ids with
  | nil => rfl
  | cons id ids ih =>
    obtain ⟨e, he⟩ := hlive id List.mem_cons_self
    rw [List.map_cons, List.mapM_cons, elements_of_extension hlook he,
      ih fun other hother => hlive other (List.mem_cons_of_mem id hother),
      List.filterMap_cons_some he]
    rfl

end Store

namespace Registry

open Cache (plainDigest)

variable {digest : DigestFunction} {r₀ r : Registry} {pointId : String}

theorem of_point? (h : r.objects.Settled) {handle : PointHandle}
    (hfound : r.point? pointId = some handle) :
    ∃ p, r.objects.pointNamed? pointId = some p ∧
      handle.extensions r.resolver = .ok (p.children.map (ExtensionHandle.mk .live)) ∧
      ∀ id ∈ p.children, ∃ e, r.objects.extension? id = some e := by
  obtain ⟨p, hp, rfl⟩ := Option.map_eq_some_iff.1 hfound
  have hlive : r.objects.point? p.id = some p := (h.sound.pointNamed?_eq_some_iff.1 hp).1
  refine ⟨p, hp, ?_, h.linked.live_children h.sound hlive⟩
  rw [PointHandle.extensions, Store.object_of_point rfl hlive]
  rfl

theorem extensionFor?_eq {p : ExtensionPoint} (hp : r.objects.pointNamed? pointId = some p)
    (extensionId : String) : r.extensionFor? pointId extensionId =
      (p.children.find? (r.isNamed extensionId)).map (ExtensionHandle.mk .live) := by
  rw [extensionFor?, hp]
  exact Option.map_eq_bind.symm

theorem extensionNamed?_of_point? (h : r.objects.Settled) {handle : PointHandle}
    (hfound : r.point? pointId = some handle) (extensionId : String) :
    handle.extensionNamed? r.resolver extensionId =
      .ok (r.extensionFor? pointId extensionId) := by
  obtain ⟨p, hp, hextensions, hlive⟩ := of_point? h hfound
  rw [PointHandle.extensionNamed?, hextensions, extensionFor?_eq hp]
  exact Store.findNamed_of_live rfl hlive extensionId

/-- The extensions of a point give the elements that are found by its identifier, one extension
after the other. -/
theorem elements_of_point? (h : r.objects.Settled) {handle : PointHandle}
    (hfound : r.point? pointId = some handle) :
    ∃ extensions contents, handle.extensions r.resolver = .ok extensions ∧
      extensions.mapM (fun e => e.elements r.resolver) = .ok contents ∧
      r.elementsFor pointId = contents.flatten := by
  obtain ⟨p, hp, hextensions, hlive⟩ := of_point? h hfound
  refine ⟨_, _, hextensions, Store.elements_of_live rfl hlive, ?_⟩
  rw [elementsFor, hp, ← List.flatMap_def]
  exact List.map_flatMap

theorem elementsOf_of_none {ns pointLocalId extensionId : String}
    (hnone : r.extensionFor? (Name.qualify ns pointLocalId) extensionId = none) :
    r.elementsOf ns pointLocalId extensionId = [] := by
  rw [elementsOf, extensionIn?, hnone]

theorem elementsOf_of_some {ns pointLocalId extensionId : String}
    {handle : ExtensionHandle}
    (hfound : r.extensionFor? (Name.qualify ns pointLocalId) extensionId = some handle) :
    handle.elements r.resolver = .ok (r.elementsOf ns pointLocalId extensionId) := by
  obtain ⟨p, hp, -⟩ := Option.bind_eq_some_iff.1 hfound
  have hfind := hfound
  rw [extensionFor?_eq hp] at hfind
  obtain ⟨id, hid, rfl⟩ := Option.map_eq_some_iff.1 hfind
  obtain ⟨e, he, -⟩ := isNamed_iff.1 (List.find?_some hid)
  rw [elementsOf, extensionIn?, hfound, Store.elements_of_extension rfl he]
  simp only [he]

/-- In whatever comes after an empty registry: if there is no point with an identifier, then nothing
is found by it; if there is one, then its handle answers, and with what is found by the identifier,
for a single extension and for the elements of all of them, taken together or extension by
extension. The elements that are found by the identifier of an extension are those that its handle
answers. -/
theorem navigates_of_succession (hempty : r₀.objects = .empty) (h : Succession digest r₀ r)
    (hn : r.objects.nextId ≤ UInt32.size) :
    (∀ pointId, r.point? pointId = none →
      r.elementsFor pointId = [] ∧ ∀ extensionId, r.extensionFor? pointId extensionId = none) ∧
    (∀ pointId handle, r.point? pointId = some handle →
      (∀ extensionId, handle.extensionNamed? r.resolver extensionId =
        .ok (r.extensionFor? pointId extensionId)) ∧
      handle.elements r.resolver = .ok (r.elementsFor pointId) ∧
      ∃ extensions contents, handle.extensions r.resolver = .ok extensions ∧
        extensions.mapM (fun e => e.elements r.resolver) = .ok contents ∧
        r.elementsFor pointId = contents.flatten) ∧
    ∀ ns pointLocalId extensionId,
      (r.extensionFor? (Name.qualify ns pointLocalId) extensionId = none →
        r.elementsOf ns pointLocalId extensionId = []) ∧
      ∀ handle, r.extensionFor? (Name.qualify ns pointLocalId) extensionId = some handle →
        handle.elements r.resolver = .ok (r.elementsOf ns pointLocalId extensionId) := by
  have hs := (h.balanced hempty hn).1.settled
  refine ⟨fun pointId hnone => ?_, fun pointId handle hfound => ?_,
    fun ns pointLocalId extensionId => ⟨elementsOf_of_none, fun _ => elementsOf_of_some⟩⟩
  · have hp : r.objects.pointNamed? pointId = none := Option.map_eq_none_iff.1 hnone
    refine ⟨?_, fun extensionId => ?_⟩
    · rw [elementsFor, hp]
    · rw [extensionFor?, hp]
      rfl
  · obtain ⟨extensions, contents, hextensions, hcontents, hall⟩ := elements_of_point? hs hfound
    refine ⟨extensionNamed?_of_point? hs hfound, ?_, extensions, contents, hextensions, hcontents,
      hall⟩
    rw [PointHandle.elements, hextensions, hall]
    exact congrArg (· >>= fun lists => .ok lists.flatten) hcontents

/-- An anonymous extension before the named one is passed over, and one without elements before the
one that has some. -/
theorem navigates_samples :
    (⟨.live, ⟨1⟩⟩ : PointHandle).extensionNamed? sampleNamed.resolver "tools.save" =
      .ok (some ⟨.live, ⟨2⟩⟩) ∧
    (⟨.live, ⟨1⟩⟩ : PointHandle).elements sampleCrowded.resolver = .ok [⟨.live, ⟨3⟩⟩] := by
  obtain ⟨-, hnamed, -⟩ :=
    navigates_of_succession rfl steady_sampleNamed.succession (by decide +kernel)
  obtain ⟨-, hcrowded, -⟩ :=
    navigates_of_succession rfl succession_sampleCrowded (by decide +kernel)
  have hone : sampleNamed.extensionFor? "ui.menu" "tools.save" = some ⟨.live, ⟨2⟩⟩ := by
    decide +kernel
  have hall : sampleCrowded.elementsFor "ui.menu" = [⟨.live, ⟨3⟩⟩] := by decide +kernel
  have hextension := (hnamed "ui.menu" ⟨.live, ⟨1⟩⟩ (by decide +kernel)).1 "tools.save"
  have helements := (hcrowded "ui.menu" ⟨.live, ⟨1⟩⟩ (by decide +kernel)).2.1
  rw [hone] at hextension
  rw [hall] at helements
  exact ⟨hextension, helements⟩

end Registry

end PluginRegistry
