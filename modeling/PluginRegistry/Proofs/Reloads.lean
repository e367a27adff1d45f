import Mathlib.Data.List.Perm.Subperm
import PluginRegistry.Proofs.Images
import PluginRegistry.Proofs.Integrity
import PluginRegistry.Proofs.Outcomes
import PluginRegistry.Proofs.Rebuilding

/-!
# A store and its reloaded copy

The parts of a store to which writes lead pass the integrity check (`checkIntegrity_toParts`), and
what is decoded from their encoding builds the same store, unmarked. A registry goes on with the
copy as it would with the store itself (`reload_of_reachable`).
-/

namespace PluginRegistry

namespace Store

variable {s : Store}

theorem Whole.child (h : s.Whole) {id : ObjectId} {o : RegistryObject}
    (ho : s.object? id = some o) :
    ∀ child ∈ o.children, ∃ o', s.object? child = some o' ∧ o'.kind = o.childKind := by
  intro child hmem
  cases o with
  | point p =>
    have hpoint := point?_eq_some_iff.2 ho
    have hid := h.settled.sound.point_id hpoint
    subst hid
    have hnamed := h.settled.sound.pointNamed?_eq_some_iff.2 ⟨hpoint, rfl⟩
    obtain ⟨hlists, -⟩ := (h.settled.linked p.uniqueId).lit p hnamed (by simp)
    obtain ⟨-, e, he, -⟩ := (hlists.mem_iff child).1 hmem
    exact ⟨_, extension?_eq_some_iff.1 he, rfl⟩
  | extension e =>
    obtain ⟨-, -, -, e', he', -⟩ := h.rooted.child ho nofun child hmem
    exact ⟨_, element?_eq_some_iff.1 he', rfl⟩
  | element e =>
    obtain ⟨-, -, -, e', he', -⟩ := h.rooted.child ho nofun child hmem
    exact ⟨_, element?_eq_some_iff.1 he', rfl⟩

theorem Whole.orphans (h : s.Whole) {u : String} {bucket : List ObjectId}
    (hb : s.orphansOf? u = some bucket) : bucket ≠ [] ∧ Lists bucket (s.Attached [] u) := by
  have hnone : s.pointNamed? u = none := by
    cases hn : s.pointNamed? u with
    | none => rfl
    | some p =>
      rw [((h.settled.linked u).lit p hn (by simp)).2] at hb
      cases hb
  obtain ⟨hlists, hne⟩ := (h.settled.linked u).parked (by simp [hnone])
  rw [hb] at hlists hne
  exact ⟨fun e => hne (by rw [e]), hlists⟩

theorem checkIntegrity_toParts (h : s.Whole) (hn : s.nextId < UInt32.size) :
    Cache.checkIntegrity s.toParts = .ok () := by
  have hmem := fun o => mem_objects_iff h.settled.sound hn.le (o := o)
  have hnext : s.toParts.nextId.toNat = s.nextId := UInt32.toNat_ofNat_of_lt' hn
  have hthere : ∀ {id o}, s.object? id = some o → s.toParts.HasObject o.kind id := by
    intro id o ho
    have hid := h.settled.sound.id_eq ho
    subst hid
    exact ⟨o, (hmem o).2 ho, rfl, rfl⟩
  refine Cache.checkIntegrity_eq_ok_iff.2
    { id_lt := fun o ho => ?_
      ids_distinct := nodup_ids h.settled.sound hn.le
      child := fun o ho id hid => ?_
      parent := fun e he => ?_
      points := fun c hc id hid => ?_
      extensions := fun c hc id hid => ?_
      orphans := fun bucket hb id hid => ?_ }
  · rw [UInt32.lt_iff_toNat_lt, hnext]
    exact index_lt_of_object? ((hmem o).1 ho)
  · obtain ⟨o', ho', hk⟩ := h.child ((hmem o).1 ho) id hid
    exact hk ▸ hthere ho'
  · obtain ⟨above, habove, hk, -⟩ :=
      h.rooted.parent (element?_eq_some_iff.2 ((hmem (.element e)).1 he))
    exact hk ▸ hthere habove
  · obtain ⟨o, ho, hk, -⟩ := (h.listed.points c hc).live id hid
    exact hk ▸ hthere ho
  · obtain ⟨o, ho, hk, -⟩ := (h.listed.extensions c hc).live id hid
    exact hk ▸ hthere ho
  · have hb : s.orphansOf? bucket.1 = some bucket.2 :=
      Std.ExtTreeMap.mem_toList_iff_getElem?_eq_some.1 hb
    obtain ⟨-, e, he, -⟩ := ((h.orphans hb).2.mem_iff id).1 hid
    exact hthere (extension?_eq_some_iff.1 he)

/-! ## Sizes -/

/-- What machine words bound in every store that is in memory: the length of a text, the number of
properties of an element, the number of contributions. -/
structure InMemory (s : Store) : Prop where
  strings : ∀ o ∈ s.objects, (Cache.Image.stringRecord o).Fits
  contributions : s.contributions.length < UInt64.size
  namespaces : ∀ c ∈ s.contributions, Cache.FitsText c.ns

theorem length_le_of_nodup {ids : List ObjectId} {n : Nat} (h : ids.Nodup)
    (hlt : ∀ id ∈ ids, id.index < n) : ids.length ≤ n := by
  have hnodup : (ids.map ObjectId.index).Nodup := h.map fun _ _ => ObjectId.index_inj
  have hsub : ids.map ObjectId.index ⊆ List.range n := by
    intro i hi
    obtain ⟨id, hid, rfl⟩ := List.mem_map.1 hi
    exact List.mem_range.2 (hlt id hid)
  simpa using (hnodup.subperm hsub).length_le

theorem Owns.length_le {c : ContributorId} {kind : ObjectKind} {ids : List ObjectId}
    (h : s.Owns c kind ids) : ids.length ≤ s.nextId := length_le_of_nodup h.nodup h.index_lt

theorem length_attached_le {ids pending : List ObjectId} {u : String}
    (h : Lists ids (s.Attached pending u)) : ids.length ≤ s.nextId := by
  refine length_le_of_nodup h.nodup fun id hid => ?_
  obtain ⟨-, e, he, -⟩ := (h.mem_iff id).1 hid
  exact index_lt_of_object? (extension?_eq_some_iff.1 he)

/-- There are no more orphan buckets than ids: each has an extension that no other has. -/
theorem Whole.length_orphans_le (h : s.Whole) : s.orphans.toList.length ≤ s.nextId := by
  have hbucket : ∀ bucket ∈ s.orphans.toList, s.orphansOf? bucket.1 = some bucket.2 :=
    fun bucket hb => Std.ExtTreeMap.mem_toList_iff_getElem?_eq_some.1 hb
  have hfirst : ∀ bucket ∈ s.orphans.toList, ∃ e,
      s.extension? (bucket.2.headD default) = some e ∧ e.target = bucket.1 := by
    intro bucket hb
    obtain ⟨hne, hlists⟩ := h.orphans (hbucket bucket hb)
    obtain ⟨id, ids, hids⟩ := List.exists_cons_of_ne_nil hne
    rw [hids] at hlists ⊢
    exact ((hlists.mem_iff id).1 List.mem_cons_self).2
  rw [← List.length_map (fun bucket : String × List ObjectId => bucket.2.headD default)]
  refine length_le_of_nodup (List.pairwise_map.2 ?_) fun id hid => ?_
  · refine Std.ExtTreeMap.distinct_keys_toList.imp_of_mem fun {a b} ha hb hne heq => hne ?_
    obtain ⟨e, he, hea⟩ := hfirst a ha
    obtain ⟨e', he', heb⟩ := hfirst b hb
    rw [heq, he'] at he
    cases he
    rw [← hea, heb]
    exact Std.ReflOrd.compare_self
  · obtain ⟨bucket, hb, rfl⟩ := List.mem_map.1 hid
    obtain ⟨e, he, -⟩ := hfirst bucket hb
    exact index_lt_of_object? (extension?_eq_some_iff.1 he)

theorem fits_toParts (h : s.Whole) (hm : s.InMemory) (hn : s.nextId < UInt32.size) :
    Cache.Image.Fits s.toParts where
  strings := hm.strings
  contributions := hm.contributions
  contribution c hc :=
    ⟨hm.namespaces c hc, Nat.lt_of_le_of_lt (h.listed.points c hc).length_le hn,
      Nat.lt_of_le_of_lt (h.listed.extensions c hc).length_le hn⟩
  orphans := Nat.lt_of_le_of_lt h.length_orphans_le (Nat.lt_trans hn (by decide))
  bucket bucket hb := by
    have hb : s.orphansOf? bucket.1 = some bucket.2 :=
      Std.ExtTreeMap.mem_toList_iff_getElem?_eq_some.1 hb
    obtain ⟨hne, hlists⟩ := h.orphans hb
    have hlength := length_attached_le hlists
    refine ⟨?_, Nat.lt_of_le_of_lt hlength (Nat.lt_trans hn (by decide))⟩
    obtain ⟨id, ids, hids⟩ := List.exists_cons_of_ne_nil hne
    obtain ⟨-, e, he, htarget⟩ := (hlists.mem_iff id).1 (hids ▸ List.mem_cons_self)
    have hobject := extension?_eq_some_iff.1 he
    have hmem := (mem_objects_iff h.settled.sound hn.le (o := .extension e)).2
      (by rw [show RegistryObject.id (.extension e) = id from h.settled.sound.id_eq hobject,
        hobject])
    obtain ⟨-, -, hfits, -⟩ := hm.strings _ hmem
    exact htarget ▸ hfits

/-! ## The reloaded copy -/

theorem Whole.reload (h : s.Whole) (hm : s.InMemory) (hn : s.nextId < UInt32.size)
    (hmain : (Cache.Image.layOut 0 0 s.toParts.objects).2.length < UInt32.size) (f : UInt64) :
    (Cache.Image.encode s.toParts f).decode f = .ok s.toParts ∧
      ofParts s.toParts = s.mark false :=
  ⟨Cache.Image.decode_of_checked (fits_toParts h hm hn) hmain (checkIntegrity_toParts h hn) f,
    ofParts_toParts h hn⟩

/-- For every store to which writes lead: its parts pass the integrity check; what is decoded from
their encoding builds a store with the same slots, index, contributions, orphans and next id,
unmarked; and a registry with that copy gives the same outcomes to all further writes as one with
the store itself, and leads to the same stores up to the mark. -/
theorem reload_of_reachable {s : Store} (h : s.Reachable) (hm : s.InMemory)
    (hn : s.nextId < UInt32.size)
    (hmain : (Cache.Image.layOut 0 0 s.toParts.objects).2.length < UInt32.size) :
    Cache.checkIntegrity s.toParts = .ok () ∧
      ∀ f, ∃ parts, (Cache.Image.encode s.toParts f).decode f = .ok parts ∧
        (ofParts parts).slots = s.slots ∧ (ofParts parts).pointIndex = s.pointIndex ∧
        (ofParts parts).contributions = s.contributions ∧ (ofParts parts).orphans = s.orphans ∧
        (ofParts parts).nextId = s.nextId ∧ (ofParts parts).dirty = false ∧
        ∀ r r' : Registry, r.objects = s → r'.objects = ofParts parts → r'.settings = r.settings →
          r'.strategy = r.strategy → r'.token = r.token → r'.listeners = r.listeners →
          r'.stopped = r.stopped → ∀ ws, Write.outcomes r' ws = Write.outcomes r ws ∧
            ∃ b, (Write.performAll r' ws).objects = (Write.performAll r ws).objects.mark b := by
  have hwhole := h.whole hn.le
  refine ⟨checkIntegrity_toParts hwhole hn, fun f => ?_⟩
  obtain ⟨hdecode, hcopy⟩ := hwhole.reload hm hn hmain f
  refine ⟨s.toParts, hdecode, ?_⟩
  rw [hcopy]
  refine ⟨rfl, rfl, rfl, rfl, rfl, rfl, fun r r' hr hr' hsettings hstrategy htoken hlisteners
    hstopped ws => ?_⟩
  have halike : r.Alike r' :=
    ⟨⟨false, by rw [hr', hr]⟩, by rw [hsettings], hstrategy, htoken, hlisteners, hstopped⟩
  obtain ⟨houtcomes, hlast⟩ := Write.outcomes_eq halike ws
  exact ⟨houtcomes, hlast.objects⟩

end Store

/-- The sample once the contributor of the point was taken out again. -/
def Registry.sampleParted : Registry := (Write.remove ⟨1⟩).perform sampleLinked

open Registry (sampleParted) in
theorem Store.reload_sampleParted :
    sampleParted.objects.orphansOf? "ui.menu" = some [⟨0⟩] ∧
    ∃ copy : Store, copy.dirty = false ∧ copy.nextId = 2 ∧
      Write.outcomes { sampleParted with objects := copy } [Registry.samplePoint] =
        Write.outcomes sampleParted [Registry.samplePoint] := by
  have h : sampleParted.objects.Reachable := .write _ _ (.write _ _ (.write _ _ .empty))
  have hm : sampleParted.objects.InMemory :=
    ⟨by decide +kernel, by decide +kernel, by decide +kernel⟩
  have hn : sampleParted.objects.nextId < UInt32.size := by decide +kernel
  obtain ⟨-, hreload⟩ := reload_of_reachable h hm hn (by decide +kernel)
  obtain ⟨parts, -, -, -, -, -, hnext, hdirty, hwrites⟩ := hreload 7
  have houtcomes := hwrites sampleParted { sampleParted with objects := ofParts parts } rfl rfl rfl
    rfl rfl rfl rfl [Registry.samplePoint]
  refine ⟨by decide +kernel, ofParts parts, hdirty, ?_, houtcomes.1⟩
  rw [hnext]
  decide +kernel

end PluginRegistry
