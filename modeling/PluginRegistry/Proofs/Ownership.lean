import PluginRegistry.Proofs.Contents
import PluginRegistry.Proofs.Declared
import PluginRegistry.Proofs.Writes

/-!
# Who owns what

In a `Listed` store every contributor has one contribution, which lists live points and extensions
of that contributor, each once. Together with `Settled` and `Rooted` this is all that writes keep
(`Store.Whole`).
-/

namespace PluginRegistry

@[simp] theorem RegistryObject.contributor_bare (o : RegistryObject) :
    o.bare.contributor = o.contributor := by cases o <;> rfl

namespace Store

variable {s s' : Store}

/-- The ids are of live objects of one kind and one contributor, each once. -/
structure Owns (s : Store) (c : ContributorId) (kind : ObjectKind) (ids : List ObjectId) :
    Prop where
  nodup : ids.Nodup
  live : ∀ id ∈ ids, ∃ o, s.object? id = some o ∧ o.kind = kind ∧ o.contributor = c

/-- Contributions are of distinct contributors and list what these own. -/
structure Listed (s : Store) : Prop where
  contributors_nodup : (s.contributions.map (·.contributor)).Nodup
  points : ∀ c ∈ s.contributions, s.Owns c.contributor .point c.points
  extensions : ∀ c ∈ s.contributions, s.Owns c.contributor .extension c.extensions

theorem listed_empty : empty.Listed where
  contributors_nodup := List.nodup_nil
  points c hc := by simp [empty] at hc
  extensions c hc := by simp [empty] at hc

/-! ## Carrying ownership along -/

section Owns

variable {c : ContributorId} {kind : ObjectKind} {ids new : List ObjectId}

theorem Owns.mono (h : s.Owns c kind ids)
    (hkept : ∀ id ∈ ids, ∀ o, s.object? id = some o → s'.object? id = some o) :
    s'.Owns c kind ids where
  nodup := h.nodup
  live id hid := by
    obtain ⟨o, ho, hrest⟩ := h.live id hid
    exact ⟨o, hkept id hid o ho, hrest⟩

theorem Owns.relinked (h : s.Owns c kind ids) (hr : Relinked s s') : s'.Owns c kind ids where
  nodup := h.nodup
  live id hid := by
    obtain ⟨o, ho, hk, hc⟩ := h.live id hid
    obtain ⟨o', ho', hb⟩ := hr.symm.object?_bare ho
    refine ⟨o', ho', ?_, ?_⟩
    · exact (RegistryObject.kind_eq_of_bare_eq hb).trans hk
    · rw [← RegistryObject.contributor_bare, hb, RegistryObject.contributor_bare, hc]

theorem Owns.append (h : s.Owns c kind ids) (h' : s.Owns c kind new) {n : Nat}
    (hold : ∀ id ∈ ids, id.index < n) (hnew : ∀ id ∈ new, n ≤ id.index) :
    s.Owns c kind (ids ++ new) where
  nodup := by
    refine List.nodup_append.2 ⟨h.nodup, h'.nodup, ?_⟩
    rintro a ha b hb rfl
    have hlt := hold a ha
    have hge := hnew a hb
    omega
  live id hid := (List.mem_append.1 hid).elim (h.live id) (h'.live id)

theorem Owns.index_lt (h : s.Owns c kind ids) : ∀ id ∈ ids, id.index < s.nextId := by
  intro id hid
  obtain ⟨o, ho, -⟩ := h.live id hid
  exact index_lt_of_object? ho

end Owns

theorem Listed.relinked (h : s.Listed) (hr : Relinked s s') : s'.Listed where
  contributors_nodup := hr.contributions_eq ▸ h.contributors_nodup
  points c hc := (h.points c (hr.contributions_eq ▸ hc)).relinked hr
  extensions c hc := (h.extensions c (hr.contributions_eq ▸ hc)).relinked hr

/-! ## One more contribution -/

theorem contributors_addContribution (s : Store) (c : Contribution) :
    (s.addContribution c).contributions.map (·.contributor) =
      if s.hasContribution c.contributor then s.contributions.map (·.contributor)
      else s.contributions.map (·.contributor) ++ [c.contributor] := by
  unfold addContribution
  dsimp only
  split
  · rw [List.map_map]
    refine List.map_congr_left fun k _ => ?_
    simp only [Function.comp]
    split <;> rfl
  · simp

theorem hasContribution_iff {c : ContributorId} :
    s.hasContribution c = true ↔ c ∈ s.contributions.map (·.contributor) := by
  simp [hasContribution, contribution?]

theorem mem_contributions_add {c k : Contribution}
    (hk : k ∈ (s.addContribution c).contributions) :
    k ∈ s.contributions ∨ k = c ∨
      ∃ earlier ∈ s.contributions, earlier.contributor = c.contributor ∧ k = earlier.merge c := by
  unfold addContribution at hk
  dsimp only at hk
  split at hk
  · obtain ⟨earlier, he, rfl⟩ := List.mem_map.1 hk
    split
    · rename_i hc
      exact .inr (.inr ⟨earlier, he, hc, rfl⟩)
    · exact .inl he
  · rcases List.mem_append.1 hk with hk | hk
    · exact .inl hk
    · exact .inr (.inl (List.mem_singleton.1 hk))

theorem Listed.add (h : s.Listed) (hc : s'.contributions = s.contributions)
    (hkept : ∀ id, id.index < s.nextId → s'.object? id = s.object? id) {c : Contribution}
    (hpoints : s'.Owns c.contributor .point c.points)
    (hextensions : s'.Owns c.contributor .extension c.extensions)
    (hnew : ∀ id ∈ c.points ++ c.extensions, s.nextId ≤ id.index) :
    (s'.addContribution c).Listed := by
  have hold : ∀ {contributor kind ids}, s.Owns contributor kind ids →
      (s'.addContribution c).Owns contributor kind ids := fun howns =>
    howns.mono fun id hid o ho => (hkept id (howns.index_lt id hid)).trans ho
  have hnew' : ∀ {contributor kind ids}, s'.Owns contributor kind ids →
      (s'.addContribution c).Owns contributor kind ids := fun howns => howns.mono fun _ _ _ ho => ho
  constructor
  · rw [contributors_addContribution, hc]
    split
    · exact h.contributors_nodup
    · rename_i hfirst
      rw [hasContribution_iff, hc] at hfirst
      exact List.nodup_append.2 ⟨h.contributors_nodup, List.nodup_singleton _, fun a ha b hb e =>
        hfirst (List.mem_singleton.1 hb ▸ e ▸ ha)⟩
  · intro k hk
    rcases mem_contributions_add hk with hmem | rfl | ⟨earlier, hmem, heq, rfl⟩
    · exact hold (h.points k (hc ▸ hmem))
    · exact hnew' hpoints
    · have howns := h.points earlier (hc ▸ hmem)
      exact (hold howns).append (hnew' (heq ▸ hpoints)) howns.index_lt
        fun id hid => hnew id (List.mem_append_left _ hid)
  · intro k hk
    rcases mem_contributions_add hk with hmem | rfl | ⟨earlier, hmem, heq, rfl⟩
    · exact hold (h.extensions k (hc ▸ hmem))
    · exact hnew' hextensions
    · have howns := h.extensions earlier (hc ▸ hmem)
      exact (hold howns).append (hnew' (heq ▸ hextensions)) howns.index_lt
        fun id hid => hnew id (List.mem_append_right _ hid)

/-! ## One contribution less -/

theorem Listed.not_mem_associated (h : s.Listed) (ht : s.Typed) {c : ContributorId}
    {known : Contribution} (hc : s.contribution? c = some known) {k : Contribution}
    (hk : k ∈ s.contributions) (hne : k.contributor ≠ c) :
    ∀ id, id ∈ k.points ∨ id ∈ k.extensions → id ∉ s.associated c := by
  have hknown := List.mem_of_find?_eq_some hc
  have hcontributor : known.contributor = c := by simpa using List.find?_some hc
  rintro id (hid | hid) howned
  · obtain ⟨o, ho, hkind, hco⟩ := (h.points k hk).live id hid
    have hmem := ((mem_associated ht hc ho).1 hkind).1 howned
    obtain ⟨o', ho', -, hco'⟩ := (h.points known hknown).live id hmem
    rw [ho] at ho'
    cases ho'
    exact hne (hco.symm.trans (hco'.trans hcontributor))
  · obtain ⟨o, ho, hkind, hco⟩ := (h.extensions k hk).live id hid
    have hmem := ((mem_associated ht hc ho).2 hkind).1 howned
    obtain ⟨o', ho', -, hco'⟩ := (h.extensions known hknown).live id hmem
    rw [ho] at ho'
    cases ho'
    exact hne (hco.symm.trans (hco'.trans hcontributor))

theorem listed_removeContribution (h : s.Listed) (ht : s.Typed) {c : ContributorId}
    {known : Contribution} (hc : s.contribution? c = some known) :
    ((s.remove (s.associated c)).2.removeContribution c).2.Listed := by
  obtain ⟨-, hcontributions, -⟩ := frame_remove s (s.associated c)
  have hleft : ((s.remove (s.associated c)).2.removeContribution c).2.contributions =
      s.contributions.filter (·.contributor ≠ c) := by
    unfold removeContribution
    rw [contribution?, hcontributions, ← contribution?, hc]
  have hkept : ∀ k ∈ s.contributions, k.contributor ≠ c → ∀ id, id ∈ k.points ∨ id ∈ k.extensions →
      ∀ o, s.object? id = some o →
        ((s.remove (s.associated c)).2.removeContribution c).2.object? id = some o := by
    intro k hk hne id hid o ho
    rw [object?, (frame_removeContribution _ c).1, ← object?, object?_remove,
      if_neg (h.not_mem_associated ht hc hk hne id hid), ho]
  constructor
  · rw [hleft]
    exact h.contributors_nodup.sublist (List.filter_sublist.map _)
  · intro k hk
    rw [hleft, List.mem_filter, decide_eq_true_eq] at hk
    exact (h.points k hk.1).mono fun id hid => hkept k hk.1 hk.2 id (.inl hid)
  · intro k hk
    rw [hleft, List.mem_filter, decide_eq_true_eq] at hk
    exact (h.extensions k hk.1).mono fun id hid => hkept k hk.1 hk.2 id (.inr hid)

/-! ## Everything that writes keep -/

/-- What holds of a store between two writes: objects, links, content and contributions. -/
structure Whole (s : Store) : Prop where
  settled : s.Settled
  rooted : s.Rooted
  listed : s.Listed

theorem whole_empty : empty.Whole := ⟨settled_empty, rooted_empty, listed_empty⟩

end Store

namespace Transaction

open Store (Whole)

variable {t : Transaction}

theorem listed_ingest (h : t.objects.Settled) (hl : t.objects.Listed) (p : PreparedDeclaration)
    (hn : (t.ingest p).2.objects.nextId ≤ UInt32.size) : (t.ingest p).2.objects.Listed := by
  obtain ⟨-, t', record, hadds, heq⟩ := settled_ingest h p hn
  rw [← nextId_stored] at hn
  have hle := Store.nextId_le_addExtensions p (t.addPoints p p.declaration.points).2.objects
    p.declaration.extensions
  have hfounds := founds_addPoints p t p.declaration.points h.sound (hle.trans hn)
  obtain ⟨hgrows, hsorted⟩ := Store.grows_addExtensions p _ p.declaration.extensions hn
  obtain ⟨new, -, hpoints, -⟩ :=
    forall₂_addPoints p t p.declaration.points h.sound (hle.trans hn)
  have hextensions := Store.forall₂_addExtensions p _ p.declaration.extensions hn
  have hstored : (t.stored p).2.2.objects.Listed := by
    refine hl.add (hgrows.contributions_eq.trans hfounds.contributions_eq)
      (fun id hid => Store.object?_of_old hfounds hgrows hid)
      ⟨hfounds.lists.nodup, forall_of_forall₂ hpoints fun {id _} hp => ?_⟩
      ⟨hsorted.imp fun hlt e => by rw [e] at hlt; omega,
        forall_of_forall₂ hextensions fun ⟨_, he, _⟩ => ?_⟩ fun id hid => ?_
    · have hp := Store.point?_eq_some_iff.1 hp
      exact ⟨_, (hgrows.kept id (Store.index_lt_of_object? hp)).trans hp, rfl, rfl⟩
    · exact ⟨_, Store.extension?_eq_some_iff.1 he, rfl, rfl⟩
    · have hle := hfounds.le
      rcases List.mem_append.1 hid with hid | hid
      · exact ((hfounds.lists.mem_iff id).1 hid).1
      · exact hle.trans (hgrows.range id hid).1
  rw [heq, objects_report]
  exact hstored.relinked (relinked_of_adds hadds)

theorem listed_removeContributor (h : t.objects.Settled) (hl : t.objects.Listed)
    (c : ContributorId) : (t.removeContributor c).2.objects.Listed := by
  cases hc : t.objects.hasContribution c with
  | false =>
    rw [removeContributor_of_unknown hc]
    exact hl
  | true =>
    obtain ⟨known, hknown⟩ := Option.isSome_iff_exists.1 hc
    obtain ⟨hdrops, -⟩ := linked_unlinkAll h hknown
    have hr := relinked_of_drops hdrops
    obtain ⟨record, heq⟩ := removeContributor_of_known hc
    rw [heq]
    exact Store.listed_removeContribution (hl.relinked hr) (h.typed.relinked hr)
      ((hr.contribution?_eq c).trans hknown)

theorem whole_ingest (h : t.objects.Whole) (p : PreparedDeclaration)
    (hn : (t.ingest p).2.objects.nextId ≤ UInt32.size) : (t.ingest p).2.objects.Whole :=
  ⟨(settled_ingest h.settled p hn).1, rooted_ingest h.settled h.rooted p hn,
    listed_ingest h.settled h.listed p hn⟩

theorem whole_ingestAll (h : t.objects.Whole) (ps : List PreparedDeclaration)
    (hn : (t.ingestAll ps).objects.nextId ≤ UInt32.size) : (t.ingestAll ps).objects.Whole := by
  induction ps generalizing t with
  | nil => exact h
  | cons p ps ih =>
    exact ih (whole_ingest h p ((nextId_le_ingestAll (t.ingest p).2 ps).trans hn)) hn

theorem whole_removeContributor (h : t.objects.Whole) (c : ContributorId) :
    (t.removeContributor c).2.objects.Whole :=
  ⟨settled_removeContributor h.settled c, rooted_removeContributor h.settled h.rooted c,
    listed_removeContributor h.settled h.listed c⟩

end Transaction

theorem Write.whole_perform {r : Registry} (h : r.objects.Whole) (w : Write)
    (hn : (w.perform r).objects.nextId ≤ UInt32.size) : (w.perform r).objects.Whole := by
  have hleaves := w.leaves_perform r
  cases ht : w.transaction? r with
  | none =>
    rw [ht] at hleaves
    rw [hleaves.1]
    exact h
  | some t =>
    rw [ht] at hleaves
    rw [hleaves.1] at hn ⊢
    obtain ⟨t₀, hobjects, -, ⟨prepared, rfl⟩ | ⟨c, rfl⟩⟩ := transaction?_cases ht
    · exact Transaction.whole_ingestAll (hobjects ▸ h) prepared hn
    · exact Transaction.whole_removeContributor (hobjects ▸ h) c

theorem Store.Reachable.whole {s : Store} (h : s.Reachable) (hn : s.nextId ≤ UInt32.size) :
    s.Whole := by
  induction h with
  | empty => exact whole_empty
  | write r w _ ih => exact w.whole_perform (ih ((w.nextId_le_perform r).trans hn)) hn

end PluginRegistry
