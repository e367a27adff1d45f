import PluginRegistry.Proofs.Ingest

/-!
# Taking a contributor out

All extensions of the contributor become pending and all its points dark; then both are removed,
with the elements below the extensions. What is left is at its place, so a settled store stays
settled (`settled_removeContributor`).
-/

namespace PluginRegistry

namespace Store

/-! ## What a contributor owns -/

theorem mem_walk {s : Store} {stack : List (Nat × ObjectId)} {visited : Array ObjectId}
    {x : ObjectId} (h : x ∈ s.walk stack visited) :
    x ∈ visited ∨ (∃ depth, (depth, x) ∈ stack) ∨ ∃ id, x ∈ s.elementChildren id := by
  induction stack, visited using walk.induct s with
  | case1 visited =>
    rw [walk] at h
    exact .inl h
  | case2 visited id rest ih =>
    rw [walk] at h
    rcases ih h with h | ⟨depth, h⟩ | h
    · rcases Array.mem_push.1 h with h | rfl
      · exact .inl h
      · exact .inr (.inl ⟨0, List.mem_cons_self⟩)
    · exact .inr (.inl ⟨depth, List.mem_cons_of_mem _ h⟩)
    · exact .inr (.inr h)
  | case3 visited depth id rest ih =>
    rw [walk] at h
    rcases ih h with h | ⟨depth', h⟩ | h
    · rcases Array.mem_push.1 h with h | rfl
      · exact .inl h
      · exact .inr (.inl ⟨depth + 1, List.mem_cons_self⟩)
    · rcases List.mem_append.1 h with h | h
      · obtain ⟨child, hchild, he⟩ := List.mem_map.1 h
        cases he
        exact .inr (.inr ⟨id, hchild⟩)
      · exact .inr (.inl ⟨depth', List.mem_cons_of_mem _ h⟩)
    · exact .inr (.inr h)

theorem mem_subtree {s : Store} {roots : List ObjectId} {x : ObjectId} (h : x ∈ s.subtree roots) :
    x ∈ roots ∨ ∃ id e, s.element? id = some e ∧ x ∈ e.children := by
  rw [subtree, Array.mem_toList_iff] at h
  rcases mem_walk h with h | ⟨depth, h⟩ | ⟨id, h⟩
  · simp at h
  · obtain ⟨root, hroot, he⟩ := List.mem_map.1 h
    cases he
    exact .inl hroot
  · unfold elementChildren at h
    split at h
    · rename_i e he
      exact .inr ⟨id, e, he, h⟩
    · simp at h

theorem Typed.subtree {s : Store} (h : s.Typed) {id : ObjectId} {o : RegistryObject}
    (ho : s.object? id = some o) (hk : o.kind ≠ .point) :
    ∀ x ∈ s.subtree o.children, s.Refers x .element := by
  intro x hx
  rcases mem_subtree hx with hx | ⟨parent, e, he, hx⟩
  · exact h.content id o ho hk x hx
  · exact h.content parent (.element e) (element?_eq_some_iff.1 he) nofun x hx

theorem mem_associated_iff {s : Store} {c : ContributorId} {known : Contribution}
    (hc : s.contribution? c = some known) {id : ObjectId} :
    id ∈ s.associated c ↔ id ∈ known.points ∨ id ∈ known.extensions ∨
      ∃ x ∈ known.extensions, ∃ o, s.object? x = some o ∧ id ∈ s.subtree o.children := by
  unfold associated extensionTrees
  rw [hc]
  simp only [List.flatMap_map, List.mem_append, List.mem_flatMap, List.mem_cons]
  constructor
  · rintro (hid | ⟨x, hx, rfl | hid⟩)
    · exact .inl hid
    · exact .inr (.inl hx)
    · cases hobject : s.object? x with
      | none => simp [hobject] at hid
      | some object =>
        rw [hobject] at hid
        exact .inr (.inr ⟨x, hx, object, hobject, hid⟩)
  · rintro (hid | hid | ⟨x, hx, object, hobject, hid⟩)
    · exact .inl hid
    · exact .inr ⟨id, hid, .inl rfl⟩
    · exact .inr ⟨x, hx, .inr (by rw [hobject]; exact hid)⟩

theorem mem_associated {s : Store} (h : s.Typed) {c : ContributorId} {known : Contribution}
    (hc : s.contribution? c = some known) {id : ObjectId} {o : RegistryObject}
    (ho : s.object? id = some o) :
    (o.kind = .point → (id ∈ s.associated c ↔ id ∈ known.points)) ∧
      (o.kind = .extension → (id ∈ s.associated c ↔ id ∈ known.extensions)) := by
  have hknown := List.mem_of_find?_eq_some hc
  have hpoint : id ∈ known.points → o.kind = .point := fun hid =>
    (h.points known hknown id hid).2 o ho
  have hextension : id ∈ known.extensions → o.kind = .extension := fun hid =>
    (h.extensions known hknown id hid).2 o ho
  have helement : ∀ x ∈ known.extensions, ∀ object, s.object? x = some object →
      id ∈ s.subtree object.children → o.kind = .element := by
    intro x hx object hobject hid
    have hk := (h.extensions known hknown x hx).2 object hobject
    exact (h.subtree hobject (by rw [hk]; nofun) id hid).2 o ho
  rw [mem_associated_iff hc]
  refine ⟨fun hk => ⟨?_, .inl⟩, fun hk => ⟨?_, fun hid => .inr (.inl hid)⟩⟩
  · rintro (hid | hid | ⟨x, hx, object, hobject, hid⟩)
    · exact hid
    · rw [hextension hid] at hk
      cases hk
    · rw [helement x hx object hobject hid] at hk
      cases hk
  · rintro (hid | hid | ⟨x, hx, object, hobject, hid⟩)
    · rw [hpoint hid] at hk
      cases hk
    · exact hid
    · rw [helement x hx object hobject hid] at hk
      cases hk

/-! ## Removing it -/

section Removed

variable {s : Store} {ids : List ObjectId}

theorem point?_remove_eq_some_iff {id : ObjectId} {p : ExtensionPoint} :
    (s.remove ids).2.point? id = some p ↔ s.point? id = some p ∧ id ∉ ids := by
  simp only [point?_eq_some_iff, object?_remove]
  by_cases h : id ∈ ids <;> simp [h]

theorem extension?_remove_eq_some_iff {id : ObjectId} {e : Extension} :
    (s.remove ids).2.extension? id = some e ↔ s.extension? id = some e ∧ id ∉ ids := by
  simp only [extension?_eq_some_iff, object?_remove]
  by_cases h : id ∈ ids <;> simp [h]

theorem typed_remove (h : s.Typed) (ids : List ObjectId) : (s.remove ids).2.Typed := by
  obtain ⟨hnext, hcontributions, -⟩ := frame_remove s ids
  have hkept : ∀ {id o}, (s.remove ids).2.object? id = some o → s.object? id = some o := by
    intro id o ho
    rw [object?_remove] at ho
    split at ho
    · cases ho
    · exact ho
  have hrefers : ∀ {id kind}, s.Refers id kind → (s.remove ids).2.Refers id kind :=
    fun hr => ⟨by rw [hnext]; exact hr.1, fun o ho => hr.2 o (hkept ho)⟩
  refine ⟨fun c hc id hid => ?_, fun c hc id hid => ?_, fun id o ho hk child hchild => ?_⟩
  · exact hrefers (h.points c (hcontributions ▸ hc) id hid)
  · exact hrefers (h.extensions c (hcontributions ▸ hc) id hid)
  · exact hrefers (h.content id o (hkept ho) hk child hchild)

theorem linked_remove {pending dark : List ObjectId} (hs : s.Sound) (h : s.Linked pending dark)
    (hpoints : ∀ id p, s.point? id = some p → (id ∈ ids ↔ id ∈ dark))
    (hextensions : ∀ id e, s.extension? id = some e → (id ∈ ids ↔ id ∈ pending)) :
    (s.remove ids).2.Linked [] [] := by
  have hs' := hs.remove ids
  have horphans : ∀ u, (s.remove ids).2.orphansOf? u = s.orphansOf? u := fun u => by
    rw [orphansOf?, (frame_remove s ids).2.2, orphansOf?]
  have hatt : ∀ u x, (s.remove ids).2.Attached [] u x ↔ s.Attached pending u x := by
    intro u x
    simp only [Attached, extension?_remove_eq_some_iff, List.not_mem_nil, not_false_eq_true,
      true_and]
    constructor
    · rintro ⟨e, ⟨he, hx⟩, hu⟩
      exact ⟨fun hm => hx ((hextensions x e he).2 hm), e, he, hu⟩
    · rintro ⟨hx, e, he, hu⟩
      exact ⟨e, ⟨he, fun hm => hx ((hextensions x e he).1 hm)⟩, hu⟩
  have hnamed : ∀ u p, (s.remove ids).2.pointNamed? u = some p ↔
      s.pointNamed? u = some p ∧ p.id ∉ dark := by
    intro u p
    rw [hs'.pointNamed?_eq_some_iff, hs.pointNamed?_eq_some_iff, point?_remove_eq_some_iff]
    constructor
    · rintro ⟨⟨hp, hid⟩, hu⟩
      exact ⟨⟨hp, hu⟩, fun hm => hid ((hpoints _ _ hp).2 hm)⟩
    · rintro ⟨⟨hp, hu⟩, hid⟩
      exact ⟨⟨hp, fun hm => hid ((hpoints _ _ hp).1 hm)⟩, hu⟩
  intro u
  refine ⟨fun p hp _ => ?_, by simp, fun hall => ?_⟩
  · obtain ⟨hp, hlit⟩ := (hnamed u p).1 hp
    obtain ⟨hc, hb⟩ := (h u).lit p hp hlit
    exact ⟨hc.congr (hatt u), (horphans u).trans hb⟩
  · obtain ⟨hb, hne⟩ := (h u).parked fun p hp => by
      by_contra hlit
      exact absurd (hall p ((hnamed u p).2 ⟨hp, hlit⟩)) List.not_mem_nil
    rw [horphans]
    exact ⟨hb.congr (hatt u), hne⟩

end Removed

theorem contributions_removeContribution (s : Store) (c : ContributorId) :
    ∀ k ∈ (s.removeContribution c).2.contributions, k ∈ s.contributions := by
  intro k hk
  unfold removeContribution at hk
  split at hk
  · exact hk
  · exact List.mem_of_mem_filter hk

theorem frame_removeContribution (s : Store) (c : ContributorId) :
    (s.removeContribution c).2.slots = s.slots ∧
      (s.removeContribution c).2.pointIndex = s.pointIndex ∧
      (s.removeContribution c).2.orphans = s.orphans := by
  unfold removeContribution
  split <;> exact ⟨rfl, rfl, rfl⟩

theorem settled_removeContribution {s : Store} (h : s.Settled) (c : ContributorId) :
    (s.removeContribution c).2.Settled := by
  obtain ⟨hslots, hindex, horphans⟩ := frame_removeContribution s c
  have hmem := contributions_removeContribution s c
  have hobject : ∀ id, (s.removeContribution c).2.object? id = s.object? id := fun id => by
    rw [object?, hslots, object?]
  have hrefers : ∀ {id kind}, s.Refers id kind → (s.removeContribution c).2.Refers id kind := by
    intro id kind hr
    exact ⟨by rw [nextId, hslots]; exact hr.1, fun o ho => hr.2 o (hobject id ▸ ho)⟩
  refine ⟨⟨fun {id o} ho => h.sound.id_eq (hobject id ▸ ho), fun {u id} => ?_⟩, ⟨?_, ?_, ?_⟩,
    fun u => ?_⟩
  · rw [hindex, h.sound.index_iff]
    simp only [point?, hobject]
  · exact fun k hk id hid => hrefers (h.typed.points k (hmem k hk) id hid)
  · exact fun k hk id hid => hrefers (h.typed.extensions k (hmem k hk) id hid)
  · exact fun id o ho hk child hchild =>
      hrefers (h.typed.content id o (hobject id ▸ ho) hk child hchild)
  · refine (h.linked u).congr (pointNamed?_congr hslots hindex u) ?_ (fun x => ?_) (by simp)
    · rw [orphansOf?, horphans, orphansOf?]
    · simp only [Attached, extension?, hobject]

end Store

namespace Transaction

open Store (Relinked Settled)

variable {t : Transaction}

/-! ## Unlinking it -/

theorem relinked_of_drops {t' : Transaction} (h : Relation.ReflTransGen Drops t t') :
    Relinked t.objects t'.objects := by
  induction h with
  | refl => exact .refl _
  | tail _ hstep ih => exact ih.trans hstep.relinked

theorem linked_unlinkExtensions (hs : t.objects.Sound) (h : t.objects.Linked [] [])
    (extensions : List ObjectId) :
    Relation.ReflTransGen Drops t (t.forEach unlinkExtension extensions).2 ∧
      ∃ pending, (∀ x, x ∈ pending ↔ x ∈ extensions) ∧
        (t.forEach unlinkExtension extensions).2.objects.Linked pending [] := by
  have hrun := forEach_induction (f := unlinkExtension)
    (P := fun ids t' => Relation.ReflTransGen Drops t t' ∧
      ∃ pending, (∀ x, x ∈ pending ∨ x ∈ ids ↔ x ∈ extensions) ∧ t'.objects.Linked pending [])
    (fun id ids t' ⟨hdrops, pending, hmem, hl⟩ => ?_) extensions t
    ⟨.refl, [], fun x => by simp, h⟩
  · obtain ⟨hdrops, pending, hmem, hl⟩ := hrun
    exact ⟨hdrops, pending, fun x => by simpa using hmem x, hl⟩
  · have hs' := (relinked_of_drops hdrops).sound hs
    refine ⟨hdrops.tail (drops_unlinkExtension hs' id), id :: pending, fun x => ?_,
      linked_unlinkExtension hs' hl⟩
    rw [← hmem x, List.mem_cons, List.mem_cons, or_comm (a := x = id), or_assoc]

theorem linked_unlinkPoints {pending : List ObjectId} (hs : t.objects.Sound)
    (h : t.objects.Linked pending []) (points : List ObjectId) :
    Relation.ReflTransGen Drops t (t.forEach unlinkPoint points).2 ∧
      ∃ dark, (∀ x, x ∈ dark ↔ x ∈ points) ∧
        (t.forEach unlinkPoint points).2.objects.Linked pending dark := by
  have hrun := forEach_induction (f := unlinkPoint)
    (P := fun ids t' => Relation.ReflTransGen Drops t t' ∧
      ∃ dark, (∀ x, x ∈ dark ∨ x ∈ ids ↔ x ∈ points) ∧ t'.objects.Linked pending dark)
    (fun id ids t' ⟨hdrops, dark, hmem, hl⟩ => ?_) points t ⟨.refl, [], fun x => by simp, h⟩
  · obtain ⟨hdrops, dark, hmem, hl⟩ := hrun
    exact ⟨hdrops, dark, fun x => by simpa using hmem x, hl⟩
  · have hs' := (relinked_of_drops hdrops).sound hs
    refine ⟨hdrops.tail (drops_unlinkPoint hs' id fun p hp =>
      ⟨hl.nodup_children hs' hp, hl.live_children hs' hp⟩), id :: dark, fun x => ?_,
      linked_unlinkPoint hs' hl⟩
    rw [← hmem x, List.mem_cons, List.mem_cons, or_comm (a := x = id), or_assoc]

/-- What a contributor owns is pending and dark once it is unlinked. -/
theorem linked_unlinkAll (h : t.objects.Settled) {c : ContributorId} {known : Contribution}
    (hc : t.objects.contribution? c = some known) :
    Relation.ReflTransGen Drops t (t.unlinkAll c).2 ∧ ∃ pending dark,
      (∀ x, x ∈ pending ↔ x ∈ known.extensions) ∧ (∀ x, x ∈ dark ↔ x ∈ known.points) ∧
        (t.unlinkAll c).2.objects.Linked pending dark := by
  have hextensions : t.objects.objectsFrom c .extension = known.extensions := by
    unfold Store.objectsFrom
    rw [hc]
  obtain ⟨hdrops, pending, hpending, hl⟩ :=
    linked_unlinkExtensions h.sound h.linked known.extensions
  have hr := relinked_of_drops hdrops
  have hpoints :
      (t.forEach unlinkExtension known.extensions).2.objects.objectsFrom c .point =
        known.points := by
    unfold Store.objectsFrom
    rw [hr.contribution?_eq, hc]
  obtain ⟨hdrops', dark, hdark, hl'⟩ :=
    linked_unlinkPoints (hr.sound h.sound) hl known.points
  have heq : (t.unlinkAll c).2 =
      ((t.forEach unlinkExtension known.extensions).2.forEach unlinkPoint known.points).2 := by
    unfold unlinkAll
    rw [hextensions]
    simp only [hpoints]
  rw [heq]
  exact ⟨hdrops.trans hdrops', pending, dark, hpending, hdark, hl'⟩

/-! ## Taking it out -/

/-- The store once everything of a contributor is removed, after it was unlinked. -/
def purged (t : Transaction) (c : ContributorId) : Store :=
  (((t.unlinkAll c).2.objects.remove ((t.unlinkAll c).2.objects.associated c)).2.removeContribution
    c).2

theorem removeContributor_of_unknown {c : ContributorId}
    (hc : t.objects.hasContribution c = false) : t.removeContributor c = (false, t) := by
  unfold removeContributor
  rw [hc]
  rfl

theorem removeContributor_of_known {c : ContributorId}
    (hc : t.objects.hasContribution c = true) : ∃ record, t.removeContributor c =
      (true, { (t.unlinkAll c).2 with objects := t.purged c }.report record) := by
  unfold removeContributor
  rw [hc]
  exact ⟨_, rfl⟩

theorem point?_purged (t : Transaction) (c : ContributorId) {id : ObjectId} {p : ExtensionPoint} :
    (t.purged c).point? id = some p ↔ (t.unlinkAll c).2.objects.point? id = some p ∧
      id ∉ (t.unlinkAll c).2.objects.associated c := by
  rw [purged, Store.point?_congr (Store.frame_removeContribution _ c).1,
    Store.point?_remove_eq_some_iff]

/-- A point that is about to be removed has lost all its children. -/
theorem children_of_associated (h : t.objects.Settled) {c : ContributorId}
    (hc : t.objects.hasContribution c = true) {id : ObjectId} {p : ExtensionPoint}
    (hp : (t.unlinkAll c).2.objects.point? id = some p)
    (howned : id ∈ (t.unlinkAll c).2.objects.associated c) : p.children = [] := by
  obtain ⟨known, hknown⟩ := Option.isSome_iff_exists.1 hc
  obtain ⟨hdrops, pending, dark, -, hdark, hl⟩ := linked_unlinkAll h hknown
  have hr := relinked_of_drops hdrops
  have hs := hr.sound h.sound
  have hid := hs.point_id hp
  subst hid
  have hmem := ((Store.mem_associated (h.typed.relinked hr) ((hr.contribution?_eq c).trans hknown)
    (Store.point?_eq_some_iff.1 hp)).1 rfl).1 howned
  exact (hl p.uniqueId).unlit p (hs.pointNamed?_eq_some_iff.2 ⟨hp, rfl⟩) ((hdark _).2 hmem)

theorem nextId_purged (t : Transaction) (c : ContributorId) :
    (t.purged c).nextId = t.objects.nextId := by
  unfold purged
  rw [Store.nextId, (Store.frame_removeContribution _ c).1, ← Store.nextId,
    (Store.frame_remove _ _).1, nextId_unlinkAll]

theorem nextId_removeContributor (t : Transaction) (c : ContributorId) :
    (t.removeContributor c).2.objects.nextId = t.objects.nextId := by
  cases hc : t.objects.hasContribution c with
  | false => rw [removeContributor_of_unknown hc]
  | true =>
    obtain ⟨record, h⟩ := removeContributor_of_known hc
    rw [h]
    exact nextId_purged t c

theorem settled_purged (h : t.objects.Settled) {c : ContributorId}
    (hc : t.objects.hasContribution c = true) : (t.purged c).Settled := by
  obtain ⟨known, hknown⟩ := Option.isSome_iff_exists.1 hc
  obtain ⟨hdrops, pending, dark, hpending, hdark, hl⟩ := linked_unlinkAll h hknown
  have hr := relinked_of_drops hdrops
  have hs := hr.sound h.sound
  have ht := h.typed.relinked hr
  have hknown' := (hr.contribution?_eq c).trans hknown
  refine Store.settled_removeContribution ⟨hs.remove _, Store.typed_remove ht _,
    Store.linked_remove hs hl (fun id p hp => ?_) (fun id e he => ?_)⟩ c
  · rw [hdark]
    exact (Store.mem_associated ht hknown' (Store.point?_eq_some_iff.1 hp)).1 rfl
  · rw [hpending]
    exact (Store.mem_associated ht hknown' (Store.extension?_eq_some_iff.1 he)).2 rfl

theorem settled_removeContributor (h : t.objects.Settled) (c : ContributorId) :
    (t.removeContributor c).2.objects.Settled := by
  cases hc : t.objects.hasContribution c with
  | false =>
    rw [removeContributor_of_unknown hc]
    exact h
  | true =>
    obtain ⟨record, heq⟩ := removeContributor_of_known hc
    rw [heq]
    exact settled_purged h hc

end Transaction

end PluginRegistry
