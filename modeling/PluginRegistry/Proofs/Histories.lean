import PluginRegistry.Proofs.Ownership

/-!
# Stores through time

Of an earlier store a later one has the same objects or none at all, but for the children of points,
and what is gone does not come back (`Store.Ages`). Extensions and elements do not change at all, so
an extension that is live in two stores has the same content in both of them (`Ages.inContent_iff`,
`Ages.object?_of_inContent`).
-/

namespace PluginRegistry

namespace Store

variable {s s' s'' : Store}

/-! ## Content -/

/-- `x` is the live extension `id` or an element of its content. -/
def InContent (s : Store) (id x : ObjectId) : Prop :=
  ∃ e, s.extension? id = some e ∧ (x = id ∨ s.Below e.children x)

theorem InContent.live {id x : ObjectId} (h : s.InContent id x) :
    ∃ e, s.extension? id = some e := h.imp fun _ he => he.1

theorem InContent.index_lt {id x : ObjectId} (h : s.InContent id x) : id.index < s.nextId := by
  obtain ⟨e, he⟩ := h.live
  exact index_lt_of_object? (extension?_eq_some_iff.1 he)

theorem Rooted.inContent (h : s.Rooted) {id x : ObjectId} (hx : s.InContent id x) :
    ∃ o, s.object? x = some o ∧ o.kind ≠ .point := by
  obtain ⟨e, he, rfl | hbelow⟩ := hx
  · exact ⟨.extension e, extension?_eq_some_iff.1 he, nofun⟩
  · obtain ⟨a, ha, -⟩ := h.below (extension?_eq_some_iff.1 he) nofun hbelow
    exact ⟨.element a, element?_eq_some_iff.1 ha, nofun⟩

/-! ## Growing older -/

/-- At the ids that `s` gave out `s'` has no object but that of `s`, a point with other children
maybe. -/
structure Ages (s s' : Store) : Prop where
  nextId_le : s.nextId ≤ s'.nextId
  left : ∀ {id o}, id.index < s.nextId → s'.object? id = some o →
    ∃ o', s.object? id = some o' ∧ o'.bare = o.bare

namespace Ages

theorem refl (s : Store) : Ages s s := ⟨Nat.le_refl _, fun _ h => ⟨_, h, rfl⟩⟩

theorem trans (h : Ages s s') (h' : Ages s' s'') : Ages s s'' where
  nextId_le := h.nextId_le.trans h'.nextId_le
  left hlt ho := by
    obtain ⟨o', ho', hb'⟩ := h'.left (hlt.trans_le h.nextId_le) ho
    obtain ⟨o'', ho'', hb''⟩ := h.left hlt ho'
    exact ⟨o'', ho'', hb''.trans hb'⟩

theorem of_relinked (h : Relinked s s') : Ages s s' where
  nextId_le := Nat.le_of_eq h.nextId_eq.symm
  left _ ho := h.object?_bare ho

theorem of_kept (hle : s.nextId ≤ s'.nextId)
    (hkept : ∀ id, id.index < s.nextId → s'.object? id = s.object? id) : Ages s s' where
  nextId_le := hle
  left hlt ho := ⟨_, (hkept _ hlt).symm.trans ho, rfl⟩

theorem of_remove (ids : List ObjectId) : Ages s (s.remove ids).2 where
  nextId_le := Nat.le_of_eq (frame_remove s ids).1.symm
  left _ ho := by
    rw [object?_remove] at ho
    split at ho
    · cases ho
    · exact ⟨_, ho, rfl⟩

theorem of_removeContribution (c : ContributorId) : Ages s (s.removeContribution c).2 where
  nextId_le := by rw [nextId, nextId, (frame_removeContribution s c).1]
  left _ ho := ⟨_, by rwa [object?, (frame_removeContribution s c).1] at ho, rfl⟩

theorem same (h : Ages s s') {id : ObjectId} {o : RegistryObject} (hlt : id.index < s.nextId)
    (hk : o.kind ≠ .point) (ho : s'.object? id = some o) : s.object? id = some o := by
  obtain ⟨o', ho', hb⟩ := h.left hlt ho
  rw [ho', RegistryObject.eq_of_bare_eq hk hb]

theorem extension? (h : Ages s s') {id : ObjectId} {e : Extension} (hlt : id.index < s.nextId)
    (he : s'.extension? id = some e) : s.extension? id = some e :=
  extension?_eq_some_iff.2 (h.same hlt nofun (extension?_eq_some_iff.1 he))

theorem element? (h : Ages s s') {id : ObjectId} {e : Element} (hlt : id.index < s.nextId)
    (he : s'.element? id = some e) : s.element? id = some e :=
  element?_eq_some_iff.2 (h.same hlt nofun (element?_eq_some_iff.1 he))

section Content

variable {id : ObjectId} {e : Extension}

theorem below_of_later (h : Ages s s') (hs : s.Rooted) (he : s.extension? id = some e)
    {x : ObjectId} (hx : s'.Below e.children x) : s.Below e.children x := by
  refine hx.induction (fun x hx => below_of_mem hx) fun x a hbelow ha child hchild => ?_
  obtain ⟨a', ha', -⟩ := hs.below (extension?_eq_some_iff.1 he) nofun hbelow
  have hlt := index_lt_of_object? (element?_eq_some_iff.1 ha')
  exact hbelow.child (h.element? hlt ha) hchild

theorem below_later (h : Ages s s') (hs : s.Rooted) (hs' : s'.Rooted)
    (he : s.extension? id = some e) (he' : s'.extension? id = some e) {x : ObjectId}
    (hx : s.Below e.children x) : s'.Below e.children x ∧ s'.element? x = s.element? x := by
  -- whatever is below in both stores is the same element in both
  have hsame : ∀ {x}, s.Below e.children x → s'.Below e.children x →
      s'.element? x = s.element? x := by
    intro x hx hx'
    obtain ⟨a, ha, -⟩ := hs.below (extension?_eq_some_iff.1 he) nofun hx
    obtain ⟨a', ha', -⟩ := hs'.below (extension?_eq_some_iff.1 he') nofun hx'
    rw [ha', h.element? (index_lt_of_object? (element?_eq_some_iff.1 ha)) ha']
  have hboth := hx.induction (P := fun x => s.Below e.children x ∧ s'.Below e.children x)
    (fun x hx => ⟨below_of_mem hx, below_of_mem hx⟩)
    fun x a hbelow ha child hchild => ⟨hbelow.1.child ha hchild,
      hbelow.2.child ((hsame hbelow.1 hbelow.2).trans ha) hchild⟩
  exact ⟨hboth.2, hsame hboth.1 hboth.2⟩

end Content

theorem inContent_iff (h : Ages s s') (hs : s.Rooted) (hs' : s'.Rooted) {id x : ObjectId}
    {e : Extension} (hlt : id.index < s.nextId) (he' : s'.extension? id = some e) :
    s'.InContent id x ↔ s.InContent id x := by
  have he := h.extension? hlt he'
  unfold InContent
  simp only [he, he', Option.some.injEq, exists_eq_left']
  exact or_congr_right ⟨h.below_of_later hs he, fun hx => (h.below_later hs hs' he he' hx).1⟩

theorem object?_of_inContent (h : Ages s s') (hs : s.Rooted) (hs' : s'.Rooted) {id x : ObjectId}
    {e : Extension} (hx : s.InContent id x) (he' : s'.extension? id = some e) :
    s'.object? x = s.object? x := by
  obtain ⟨o, ho, -⟩ := hs.inContent hx
  obtain ⟨o', ho', hk'⟩ := hs'.inContent ((h.inContent_iff hs hs' hx.index_lt he').2 hx)
  rw [ho', h.same (index_lt_of_object? ho) hk' ho']

end Ages

end Store

/-! ## Writes -/

namespace Transaction

open Store (Ages)

variable {t : Transaction}

theorem ages_stored (hs : t.objects.Sound) (p : PreparedDeclaration)
    (hn : (t.ingest p).2.objects.nextId ≤ UInt32.size) :
    Ages t.objects (t.stored p).2.2.objects := by
  obtain ⟨s₁, s₂, hp, he, -, hobjects⟩ := founds_stored hs p hn
  rw [hobjects]
  exact .of_kept (hp.le.trans he.le) fun id hlt => Store.object?_of_old hp he hlt

theorem ages_ingest (h : t.objects.Settled) (p : PreparedDeclaration)
    (hn : (t.ingest p).2.objects.nextId ≤ UInt32.size) :
    Ages t.objects (t.ingest p).2.objects := by
  obtain ⟨-, t', record, hadds, heq⟩ := settled_ingest h p hn
  rw [heq, objects_report]
  exact (ages_stored h.sound p hn).trans (.of_relinked (relinked_of_adds hadds))

theorem ages_ingestAll (h : t.objects.Settled) (ps : List PreparedDeclaration)
    (hn : (t.ingestAll ps).objects.nextId ≤ UInt32.size) :
    Ages t.objects (t.ingestAll ps).objects := by
  induction ps generalizing t with
  | nil => exact .refl _
  | cons p ps ih =>
    have hn' := (nextId_le_ingestAll (t.ingest p).2 ps).trans hn
    exact (ages_ingest h p hn').trans (ih (settled_ingest h p hn').1 hn)

theorem ages_purged (t : Transaction) (c : ContributorId) :
    Ages (t.unlinkAll c).2.objects (t.purged c) :=
  (Ages.of_remove _).trans (.of_removeContribution c)

theorem ages_removeContributor (h : t.objects.Settled) (c : ContributorId) :
    Ages t.objects (t.removeContributor c).2.objects := by
  cases hc : t.objects.hasContribution c with
  | false =>
    rw [removeContributor_of_unknown hc]
    exact .refl _
  | true =>
    obtain ⟨known, hknown⟩ := Option.isSome_iff_exists.1 hc
    obtain ⟨hdrops, -⟩ := linked_unlinkAll h hknown
    obtain ⟨record, heq⟩ := removeContributor_of_known hc
    rw [heq]
    exact (Ages.of_relinked (relinked_of_drops hdrops)).trans (ages_purged t c)

end Transaction

theorem Write.ages_perform {r : Registry} (h : r.objects.Settled) (w : Write)
    (hn : (w.perform r).objects.nextId ≤ UInt32.size) :
    r.objects.Ages (w.perform r).objects := by
  have hleaves := w.leaves_perform r
  cases ht : w.transaction? r with
  | none =>
    rw [ht] at hleaves
    rw [hleaves.1]
    exact .refl _
  | some t =>
    rw [ht] at hleaves
    rw [hleaves.1] at hn ⊢
    obtain ⟨t₀, hobjects, -, ⟨prepared, rfl⟩ | ⟨c, rfl⟩⟩ := transaction?_cases ht
    · rw [← hobjects]
      exact Transaction.ages_ingestAll (hobjects ▸ h) prepared hn
    · rw [← hobjects]
      exact Transaction.ages_removeContributor (hobjects ▸ h) c

/-! ## Histories -/

namespace Store

/-- One write makes `s'` of `s`, on whatever registry. -/
def Becomes (s s' : Store) : Prop :=
  ∃ (r : Registry) (w : Write), r.objects = s ∧ (w.perform r).objects = s'

/-- Writes make `s'` of `s`. -/
def Leads (s s' : Store) : Prop := Relation.ReflTransGen Becomes s s'

theorem Becomes.nextId_le {s s' : Store} (h : Becomes s s') : s.nextId ≤ s'.nextId := by
  obtain ⟨r, w, rfl, rfl⟩ := h
  exact w.nextId_le_perform r

theorem Leads.reachable {s s' : Store} (h : s.Leads s') (hs : s.Reachable) : s'.Reachable := by
  induction h with
  | refl => exact hs
  | tail _ hstep ih =>
    obtain ⟨r, w, rfl, rfl⟩ := hstep
    exact .write r w ih

/-- Whatever writes lead to has the old objects or none, but for the children of points. -/
theorem Leads.ages {s s' : Store} (h : s.Leads s') (hs : s.Reachable)
    (hn : s'.nextId ≤ UInt32.size) : s.Ages s' := by
  induction h with
  | refl => exact .refl s
  | tail hleads hstep ih =>
    have hn' := hstep.nextId_le.trans hn
    have hsettled := (Leads.reachable hleads hs).settled hn'
    obtain ⟨r, w, rfl, rfl⟩ := hstep
    exact (ih hn').trans (w.ages_perform hsettled hn)

end Store

end PluginRegistry
