import PluginRegistry.Proofs.Namespaces

/-!
# Extensions by their qualified identifiers

A look-up by qualified identifier takes what stands before the last dot for the namespace and goes
through the linked extensions that are filed there. So what it finds has the identifier and is
linked, and it finds an extension exactly if the namespace it takes is the one that the extension is
filed in (`Registry.isSome_extension?_iff`). Under a steady host that is so exactly if the local
name has no dot (`Registry.found_of_succession`); linked extensions with a dot in the local name,
and those that are filed in an earlier namespace, are missed (`Registry.missed_sampleNamed`).
-/

namespace PluginRegistry

/-- What stands before the last dot of a qualified name is its namespace if the local name has no
dot, and then only. -/
theorem Name.namespace_split?_qualify_iff {ns localName : String} :
    (split? (qualify ns localName)).map (·.1) = some ns ↔ '.' ∉ localName.toList := by
  have hqualified : (qualify ns localName).toList = ns.toList ++ '.' :: localName.toList := by
    simp [qualify]
  rw [split?, hqualified, Option.map_map, Option.map_eq_some_iff]
  constructor
  · rintro ⟨⟨before, after⟩, hsplit, hns⟩
    obtain ⟨heq, hdot⟩ := splitLastDot_eq_some_iff.1 hsplit
    have hbefore : before = ns.toList := by
      rw [← hns]
      exact String.toList_ofList.symm
    rw [hbefore, List.append_cancel_left_eq, List.cons.injEq] at heq
    rwa [heq.2]
  · intro hdot
    exact ⟨_, splitLastDot_append _ _ hdot, String.ofList_toList⟩

namespace Registry

open Cache (plainDigest)

variable {digest : DigestFunction} {r₀ r : Registry} {uniqueId : String}

theorem isNamed_iff {id : ObjectId} : r.isNamed uniqueId id = true ↔
    ∃ e, r.objects.extension? id = some e ∧ e.uniqueId? = some uniqueId := by
  simp only [isNamed, Option.any_eq_true, decide_eq_true_iff]

theorem extension?_of_split {ns localName : String}
    (h : Name.split? uniqueId = some (ns, localName)) : r.extension? uniqueId =
      ((r.linkedIn ns).find? (r.isNamed uniqueId)).map (ExtensionHandle.mk .live) := by
  rw [extension?, h]
  exact Option.map_eq_bind.symm

/-- What is found is linked, has the identifier, and is filed in the namespace before the last
dot. -/
theorem of_extension? (h : r.objects.Settled) (hb : r.objects.Balanced) {found : ExtensionHandle}
    (hfound : r.extension? uniqueId = some found) : found.source = .live ∧
    ∃ e q, r.objects.extension? found.id = some e ∧ r.objects.HasLink found.id q ∧
      e.uniqueId? = some uniqueId ∧
      (Name.split? uniqueId).map (·.1) = r.objects.fileOf? e.contributor := by
  cases hsplit : Name.split? uniqueId with
  | none =>
    rw [extension?, hsplit] at hfound
    cases hfound
  | some parts =>
    rw [extension?_of_split hsplit, Option.map_eq_some_iff] at hfound
    obtain ⟨id, hid, rfl⟩ := hfound
    obtain ⟨e, q, he, hlink, hfile⟩ :=
      (mem_linkedIn_iff h hb).1 (List.mem_of_find?_eq_some hid)
    obtain ⟨e', he', hname⟩ := isNamed_iff.1 (List.find?_some hid)
    rw [he] at he'
    cases he'
    exact ⟨rfl, e, q, he, hlink, hname, hfile.symm⟩

theorem isSome_extension?_iff (h : r.objects.Settled) (hb : r.objects.Balanced) :
    (r.extension? uniqueId).isSome = true ↔ ∃ id e q, r.objects.extension? id = some e ∧
      r.objects.HasLink id q ∧ e.uniqueId? = some uniqueId ∧
      (Name.split? uniqueId).map (·.1) = r.objects.fileOf? e.contributor := by
  constructor
  · intro hsome
    obtain ⟨found, hfound⟩ := Option.isSome_iff_exists.1 hsome
    exact ⟨found.id, (of_extension? h hb hfound).2⟩
  · rintro ⟨id, e, q, he, hlink, hname, hfile⟩
    cases hsplit : Name.split? uniqueId with
    | none =>
      -- but a live extension is filed somewhere
      obtain ⟨k, hk, -⟩ := hb.credited id _ (Store.extension?_eq_some_iff.1 he) nofun
      have hco : r.objects.contribution? e.contributor = some k := hk
      rw [hsplit, Store.fileOf?, hco] at hfile
      cases hfile
    | some parts =>
      rw [hsplit] at hfile
      have hmem : id ∈ r.linkedIn parts.1 :=
        (mem_linkedIn_iff h hb).2 ⟨e, q, he, hlink, hfile.symm⟩
      rw [extension?_of_split hsplit, Option.isSome_map, List.find?_isSome]
      exact ⟨id, hmem, isNamed_iff.2 ⟨e, he, hname⟩⟩

/-- In whatever comes after an empty registry, the extension that is found by a qualified identifier
has the identifier and is linked, and one is found exactly if a linked extension with the identifier
is filed in the namespace before the last dot. Under a steady host that is so exactly if a linked
extension with the identifier has no dot in its local name. -/
theorem found_of_succession (hempty : r₀.objects = .empty) (h : Succession digest r₀ r)
    (hn : r.objects.nextId ≤ UInt32.size) (uniqueId : String) :
    (∀ found, r.extension? uniqueId = some found →
      found.uniqueId? r.resolver = .ok (some uniqueId) ∧
        ∃ q, r.objects.HasLink found.id q) ∧
    ((r.extension? uniqueId).isSome = true ↔ ∃ id e q, r.objects.extension? id = some e ∧
      r.objects.HasLink id q ∧ e.uniqueId? = some uniqueId ∧
      (Name.split? uniqueId).map (·.1) = r.objects.fileOf? e.contributor) ∧
    (SteadySuccession digest r₀ r →
      ((r.extension? uniqueId).isSome = true ↔ ∃ id e q, r.objects.extension? id = some e ∧
        r.objects.HasLink id q ∧ e.uniqueId? = some uniqueId ∧
        ∀ localName ∈ e.simpleId, '.' ∉ localName.toList)) := by
  obtain ⟨hw, hb⟩ := h.balanced hempty hn
  refine ⟨fun found hfound => ?_, isSome_extension?_iff hw.settled hb, fun hsteady => ?_⟩
  · obtain ⟨hlive, e, q, he, hlink, hname, -⟩ := of_extension? hw.settled hb hfound
    obtain ⟨source, id⟩ := found
    obtain rfl : source = .live := hlive
    refine ⟨?_, q, hlink⟩
    have hlook : r.resolver .live = r.objects.get := rfl
    rw [ExtensionHandle.uniqueId?, Store.object_of_extension hlook he, ← hname]
    rfl
  · rw [isSome_extension?_iff hw.settled hb]
    refine exists₃_congr fun id e q => and_congr_right fun he => and_congr_right fun _ =>
      and_congr_right fun hname => ?_
    have hfile : r.objects.fileOf? e.contributor = some e.ns :=
      hsteady.inStep hempty hn id (.extension e) e.ns (Store.extension?_eq_some_iff.1 he) rfl
    obtain ⟨localName, hlocal, rfl⟩ := Option.map_eq_some_iff.1 hname
    rw [hfile, hlocal, Name.namespace_split?_qualify_iff]
    exact ⟨fun hdot _ heq => Option.some.inj heq ▸ hdot, fun hdot => hdot _ rfl⟩

/-- The linked sample once the contributor of its extension has brought two with names, one of them
with a dot. -/
def sampleNamed : Registry :=
  (Write.add {
    contributor := ⟨2⟩
    extensions := [
      { localId := some "save", target := "ui.menu" },
      { localId := some "save.all", target := "ui.menu" }] }).perform sampleLinked

theorem steady_sampleNamed : SteadySuccession plainDigest sample sampleNamed :=
  steady_sampleLinked.tail (.write _ _ (by unfold Write.Agrees; decide +kernel))

theorem found_sampleNamed :
    (sampleNamed.extension? "tools.save").isSome = true ∧
    ∀ found, sampleNamed.extension? "tools.save" = some found →
      found.uniqueId? sampleNamed.resolver = .ok (some "tools.save") := by
  obtain ⟨hsound, -, hexact⟩ := found_of_succession rfl steady_sampleNamed.succession
    (by decide +kernel) "tools.save"
  have hextension : (sampleNamed.objects.extension? ⟨2⟩).any fun e =>
      e.uniqueId? = some "tools.save" ∧ ∀ localName ∈ e.simpleId, '.' ∉ localName.toList := by
    decide +kernel
  have hmenu : (sampleNamed.objects.point? ⟨1⟩).any (⟨2⟩ ∈ ·.children) := by decide +kernel
  obtain ⟨e, he, hshows⟩ := (Option.any_eq_true _ _).1 hextension
  obtain ⟨menu, hmenu, hlink⟩ := (Option.any_eq_true _ _).1 hmenu
  obtain ⟨hname, hdot⟩ := of_decide_eq_true hshows
  exact ⟨(hexact steady_sampleNamed).2
    ⟨⟨2⟩, e, ⟨1⟩, he, ⟨menu, hmenu, of_decide_eq_true hlink⟩, hname, hdot⟩,
    fun found hfound => (hsound found hfound).1⟩

/-- Both extensions are linked and have the identifier, and neither is found: one for the dot in its
local name, the other because it is filed in an earlier namespace. -/
theorem missed_sampleNamed :
    Succession plainDigest sample sampleNamed ∧ Succession plainDigest sample sampleMoved ∧
    sampleNamed.objects.isLinked ⟨3⟩ = true ∧ sampleNamed.isNamed "tools.save.all" ⟨3⟩ = true ∧
    sampleNamed.extension? "tools.save.all" = none ∧
    sampleMoved.objects.isLinked ⟨3⟩ = true ∧ sampleMoved.isNamed "app.save" ⟨3⟩ = true ∧
    sampleMoved.extension? "app.save" = none :=
  ⟨steady_sampleNamed.succession, succession_sampleMoved, by decide +kernel, by decide +kernel,
    by decide +kernel, by decide +kernel, by decide +kernel, by decide +kernel⟩

end Registry

end PluginRegistry
