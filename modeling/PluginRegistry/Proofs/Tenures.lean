import PluginRegistry.Proofs.Histories
import PluginRegistry.Proofs.LoadOrder

/-!
# How long extensions last

The extensions of a contributor are listed in the order it brought them. As long as it is not taken
out, its list only gets longer (`Store.Outlives`), and the extensions in it stay with their content
as they were declared (`Store.HoldsExtension.outlives`). So after a write that takes declarations in
the list ends with the extensions that are declared there (`Transaction.holds_ingestAll`), and
whatever happens later they stay.
-/

namespace PluginRegistry

namespace Store

variable {s s' s'' : Store} {c : ContributorId}

/-! ## The extensions of a contributor -/

theorem objectsFrom_congr (h : s'.contribution? c = s.contribution? c) :
    s'.objectsFrom c .extension = s.objectsFrom c .extension := by
  rw [objectsFrom, h, objectsFrom]

theorem contribution?_congr (h : s'.contributions = s.contributions) (c : ContributorId) :
    s'.contribution? c = s.contribution? c := by
  rw [contribution?, h, contribution?]

theorem contribution?_addContribution (s : Store) (k : Contribution) (c : ContributorId) :
    (s.addContribution k).contribution? c =
      if k.contributor = c then some ((s.contribution? c).elim k (·.merge k))
      else s.contribution? c := by
  have hmerged : (s.contributions.map fun earlier =>
      if earlier.contributor = k.contributor then earlier.merge k else earlier).find?
        (·.contributor = c) = (s.contribution? c).map fun earlier =>
      if earlier.contributor = k.contributor then earlier.merge k else earlier := by
    rw [List.find?_map, contribution?]
    congr 2
    funext earlier
    simp only [Function.comp]
    split <;> rfl
  have hfound : ∀ known, s.contribution? c = some known → known.contributor = c := fun known h => by
    simpa using List.find?_some h
  unfold addContribution
  rw [contribution?]
  dsimp only
  split
  · rename_i hknown
    rw [hmerged]
    cases hc : s.contribution? c with
    | none =>
      rw [Option.map_none, if_neg]
      rintro rfl
      rw [hasContribution, hc] at hknown
      cases hknown
    | some known =>
      rw [Option.map_some, hfound known hc]
      by_cases heq : k.contributor = c
      · rw [if_pos heq, if_pos heq.symm]
        rfl
      · rw [if_neg heq, if_neg (Ne.symm heq)]
  · rename_i hnew
    rw [List.find?_append, ← contribution?]
    by_cases heq : k.contributor = c
    · have hnone : s.contribution? c = none := by
        rw [← heq]
        simpa [hasContribution] using hnew
      simp [hnone, heq]
    · simp [heq]

theorem objectsFrom_addContribution (s : Store) (k : Contribution) (c : ContributorId) :
    (s.addContribution k).objectsFrom c .extension =
      s.objectsFrom c .extension ++ if k.contributor = c then k.extensions else [] := by
  rw [objectsFrom, contribution?_addContribution, objectsFrom]
  by_cases heq : k.contributor = c
  · rw [if_pos heq, if_pos heq]
    cases s.contribution? c <;> rfl
  · rw [if_neg heq, if_neg heq, List.append_nil]

theorem contribution?_removeContribution (s : Store) (c c' : ContributorId) :
    (s.removeContribution c').2.contribution? c = if c = c' then none else s.contribution? c := by
  unfold removeContribution
  cases hc : s.contribution? c' with
  | none =>
    dsimp only
    split
    · rename_i heq
      rw [heq, hc]
    · rfl
  | some known =>
    rw [contribution?, List.find?_filter]
    split
    · rename_i heq
      simp [heq]
    · rename_i hne
      rw [contribution?]
      congr 1
      funext k
      by_cases hk : k.contributor = c <;> simp [hk, hne]

theorem Listed.extension_of_mem (h : s.Listed) {id : ObjectId}
    (hid : id ∈ s.objectsFrom c .extension) : ∃ e, s.extension? id = some e := by
  unfold objectsFrom at hid
  cases hc : s.contribution? c with
  | none =>
    rw [hc] at hid
    cases hid
  | some known =>
    rw [hc] at hid
    obtain ⟨o, ho, hkind, -⟩ := (h.extensions known (List.mem_of_find?_eq_some hc)).live id hid
    cases o with
    | extension e => exact ⟨e, extension?_eq_some_iff.2 ho⟩
    | point p => cases hkind
    | element e => cases hkind

theorem Listed.nodup_extensions (h : s.Listed) (c : ContributorId) :
    (s.objectsFrom c .extension).Nodup := by
  unfold objectsFrom
  cases hc : s.contribution? c with
  | none => exact .nil
  | some known => exact (h.extensions known (List.mem_of_find?_eq_some hc)).nodup

/-! ## Lasting -/

/-- `s'` is a later store than `s`, in which the contributor has all the extensions it had, and
maybe more behind them. -/
structure Outlives (c : ContributorId) (s s' : Store) : Prop where
  ages : s.Ages s'
  listed : s.objectsFrom c .extension <+: s'.objectsFrom c .extension

namespace Outlives

theorem refl (c : ContributorId) (s : Store) : Outlives c s s := ⟨.refl s, List.prefix_rfl⟩

theorem trans (h : Outlives c s s') (h' : Outlives c s' s'') : Outlives c s s'' :=
  ⟨h.ages.trans h'.ages, h.listed.trans h'.listed⟩

theorem mark (c : ContributorId) (s : Store) (b : Bool) : Outlives c s (s.mark b) :=
  ⟨.of_kept (Nat.le_refl _) fun _ _ => rfl, List.prefix_rfl⟩

end Outlives

mutual

theorem Holds.congr {roots : List ObjectId}
    (hsame : ∀ x, s.Below roots x → s'.element? x = s.element? x)
    {context : ElementContext} {id : ObjectId} (hid : s.Below roots id) {e : ElementDecl}
    (h : s.Holds context id e) : s'.Holds context id e := by
  cases e with
  | mk name properties value children =>
    obtain ⟨ids, helement, hbelow⟩ := h
    exact ⟨ids, (hsame id hid).trans helement,
      HoldsAll.congr hsame (fun _ hchild => hid.child helement hchild) hbelow⟩

theorem HoldsAll.congr {roots : List ObjectId}
    (hsame : ∀ x, s.Below roots x → s'.element? x = s.element? x) {context : ElementContext}
    {ids : List ObjectId} (hids : ∀ id ∈ ids, s.Below roots id) {es : List ElementDecl}
    (h : s.HoldsAll context ids es) : s'.HoldsAll context ids es := by
  cases es with
  | nil => exact h
  | cons e es =>
    obtain ⟨id, rest, rfl, hfirst, hrest⟩ := h
    exact ⟨id, rest, rfl, Holds.congr hsame (hids id List.mem_cons_self) hfirst,
      HoldsAll.congr hsame (fun x hx => hids x (List.mem_cons_of_mem _ hx)) hrest⟩

end

theorem HoldsExtension.outlives {p : PreparedDeclaration} {id : ObjectId} {d : ExtensionDecl}
    (h : s.HoldsExtension p id d) (hs : s.Rooted) (hs' : s'.Whole) (hlater : Outlives c s s')
    (hid : id ∈ s.objectsFrom c .extension) : s'.HoldsExtension p id d := by
  obtain ⟨children, he, hcontent⟩ := h
  obtain ⟨e, he'⟩ := hs'.listed.extension_of_mem (hlater.listed.subset hid)
  have hlt := index_lt_of_object? (extension?_eq_some_iff.1 he)
  obtain rfl : e = p.extension d id children :=
    Option.some.inj ((hlater.ages.extension? hlt he').symm.trans he)
  exact ⟨children, he', hcontent.congr
    (fun x hx => (hlater.ages.below_later hs hs'.rooted he he' hx).2) fun _ => below_of_mem⟩

theorem forall₂_outlives {ids : List ObjectId} {xs : List (PreparedDeclaration × ExtensionDecl)}
    (h : List.Forall₂ (fun id x => s.HoldsExtension x.1 id x.2) ids xs) (hs : s.Rooted)
    (hs' : s'.Whole) (hlater : Outlives c s s')
    (hids : ∀ id ∈ ids, id ∈ s.objectsFrom c .extension) :
    List.Forall₂ (fun id x => s'.HoldsExtension x.1 id x.2) ids xs := by
  induction h with
  | nil => exact .nil
  | cons hd _ ih =>
    exact .cons (hd.outlives hs hs' hlater (hids _ List.mem_cons_self))
      (ih fun id hid => hids id (List.mem_cons_of_mem _ hid))

end Store

/-! ## Taking declarations in -/

namespace Transaction

open Store (Outlives)

variable {t : Transaction}

theorem objectsFrom_ingest (h : t.objects.Settled) (p : PreparedDeclaration)
    (hn : (t.ingest p).2.objects.nextId ≤ UInt32.size) : ∃ ids,
      List.Forall₂ ((t.ingest p).2.objects.HoldsExtension p) ids p.declaration.extensions ∧
      ∀ c, (t.ingest p).2.objects.objectsFrom c .extension = t.objects.objectsFrom c .extension ++
        if p.declaration.contributor = c then ids else [] := by
  obtain ⟨-, t', record, hadds, heq⟩ := settled_ingest h p hn
  have hr := relinked_of_adds hadds
  rw [← nextId_stored] at hn
  have hle := Store.nextId_le_addExtensions p (t.addPoints p p.declaration.points).2.objects
    p.declaration.extensions
  have hfounds := founds_addPoints p t p.declaration.points h.sound (hle.trans hn)
  obtain ⟨hgrows, -⟩ := Store.grows_addExtensions p _ p.declaration.extensions hn
  have hholds := Store.forall₂_addExtensions p _ p.declaration.extensions hn
  have hextension : ∀ x, t'.objects.extension? x = (addExtensions p
      (t.addPoints p p.declaration.points).2.objects p.declaration.extensions).2.extension? x :=
    hr.extension?_eq
  have helement : ∀ x, t'.objects.element? x = (addExtensions p
      (t.addPoints p p.declaration.points).2.objects p.declaration.extensions).2.element? x :=
    hr.element?_eq
  rw [heq, objects_report]
  refine ⟨_, hholds.imp fun id d hd => ?_, fun c => ?_⟩
  · exact hd.mono (fun x e he => (hextension x).trans he) fun x e he => (helement x).trans he
  · have hbefore := Store.contribution?_congr
      (hgrows.contributions_eq.trans hfounds.contributions_eq) c
    rw [Store.objectsFrom_congr (hr.contribution?_eq c), ← Store.objectsFrom_congr hbefore]
    exact Store.objectsFrom_addContribution _ _ c

theorem outlives_ingest (h : t.objects.Settled) (p : PreparedDeclaration)
    (hn : (t.ingest p).2.objects.nextId ≤ UInt32.size) (c : ContributorId) :
    Outlives c t.objects (t.ingest p).2.objects := by
  obtain ⟨ids, -, hlist⟩ := objectsFrom_ingest h p hn
  exact ⟨ages_ingest h p hn, hlist c ▸ List.prefix_append _ _⟩

theorem outlives_ingestAll (h : t.objects.Settled) (ps : List PreparedDeclaration)
    (hn : (t.ingestAll ps).objects.nextId ≤ UInt32.size) (c : ContributorId) :
    Outlives c t.objects (t.ingestAll ps).objects := by
  induction ps generalizing t with
  | nil => exact .refl c _
  | cons p ps ih =>
    have hn' := (nextId_le_ingestAll (t.ingest p).2 ps).trans hn
    exact (outlives_ingest h p hn' c).trans (ih (settled_ingest h p hn').1 hn)

def extensionsBy (c : ContributorId) (ps : List PreparedDeclaration) :
    List (PreparedDeclaration × ExtensionDecl) :=
  (ps.filter (·.declaration.contributor = c)).flatMap (·.extensions)

theorem holds_ingestAll (h : t.objects.Whole) (ps : List PreparedDeclaration)
    (hn : (t.ingestAll ps).objects.nextId ≤ UInt32.size) (c : ContributorId) : ∃ ids,
      (t.ingestAll ps).objects.objectsFrom c .extension =
        t.objects.objectsFrom c .extension ++ ids ∧
      List.Forall₂ (fun id x => (t.ingestAll ps).objects.HoldsExtension x.1 id x.2) ids
        (extensionsBy c ps) := by
  induction ps generalizing t with
  | nil => exact ⟨[], (List.append_nil _).symm, .nil⟩
  | cons p ps ih =>
    have hn' := (nextId_le_ingestAll (t.ingest p).2 ps).trans hn
    have hwhole := whole_ingest h p hn'
    obtain ⟨first, hfirst, hlist⟩ := objectsFrom_ingest h.settled p hn'
    obtain ⟨rest, hlist', hrest⟩ := ih hwhole hn
    have hlater := outlives_ingestAll hwhole.settled ps hn c
    have heq : t.ingestAll (p :: ps) = (t.ingest p).2.ingestAll ps := rfl
    have hlast := whole_ingestAll hwhole ps hn
    rw [heq]
    rw [hlist c] at hlist'
    by_cases hc : p.declaration.contributor = c
    · rw [if_pos hc, List.append_assoc] at hlist'
      refine ⟨first ++ rest, hlist', ?_⟩
      rw [extensionsBy, List.filter_cons_of_pos (by simpa using hc), List.flatMap_cons]
      refine List.rel_append (Store.forall₂_outlives ?_ hwhole.rooted hlast hlater fun id hid => ?_)
        hrest
      · rw [PreparedDeclaration.extensions, List.forall₂_map_right_iff]
        exact hfirst
      · rw [hlist c, if_pos hc]
        exact List.mem_append_right _ hid
    · rw [if_neg hc, List.append_nil] at hlist'
      refine ⟨rest, hlist', ?_⟩
      rwa [extensionsBy, List.filter_cons_of_neg (by simpa using hc)]

theorem outlives_removeContributor (h : t.objects.Settled) {c c' : ContributorId}
    (hc : (t.removeContributor c').2.objects.hasContribution c = true) :
    Outlives c t.objects (t.removeContributor c').2.objects := by
  refine ⟨ages_removeContributor h c', ?_⟩
  cases hknown : t.objects.hasContribution c' with
  | false =>
    exact ⟨[], by rw [removeContributor_of_unknown hknown, List.append_nil]⟩
  | true =>
    obtain ⟨known, hknown'⟩ := Option.isSome_iff_exists.1 hknown
    obtain ⟨hdrops, -⟩ := linked_unlinkAll h hknown'
    obtain ⟨record, heq⟩ := removeContributor_of_known hknown
    have hleft : (t.purged c').contribution? c =
        if c = c' then none else t.objects.contribution? c := by
      rw [purged, Store.contribution?_removeContribution,
        Store.contribution?_congr (Store.frame_remove _ _).2.1,
        (relinked_of_drops hdrops).contribution?_eq]
    rw [heq, objects_report] at hc ⊢
    have hother : c ≠ c' := by
      rintro rfl
      rw [Store.hasContribution, hleft, if_pos rfl] at hc
      cases hc
    rw [if_neg hother] at hleft
    exact ⟨[], by rw [Store.objectsFrom_congr hleft, List.append_nil]⟩

end Transaction

theorem Write.outlives_perform {r : Registry} (h : r.objects.Settled) (w : Write)
    (hn : (w.perform r).objects.nextId ≤ UInt32.size) {c : ContributorId}
    (hc : (w.perform r).objects.hasContribution c = true) :
    r.objects.Outlives c (w.perform r).objects := by
  have hleaves := w.leaves_perform r
  cases ht : w.transaction? r with
  | none =>
    rw [ht] at hleaves
    rw [hleaves.1]
    exact .refl c _
  | some t =>
    rw [ht] at hleaves
    rw [hleaves.1] at hn hc ⊢
    obtain ⟨t₀, hobjects, -, ⟨prepared, rfl⟩ | ⟨c', rfl⟩⟩ := transaction?_cases ht
    · rw [← hobjects]
      exact Transaction.outlives_ingestAll (hobjects ▸ h) prepared hn c
    · rw [← hobjects]
      exact Transaction.outlives_removeContributor (hobjects ▸ h) hc

end PluginRegistry
