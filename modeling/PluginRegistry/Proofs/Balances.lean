import PluginRegistry.Proofs.Credits

/-!
# The books stay balanced

What a declaration brings is entered under its contributor (`Transaction.object?_stored`), and
taking a contributor out takes out what it owns and nothing else (`Store.Without`). So a store is
balanced after every write (`Write.balanced_perform`) and whatever becomes of a registry
(`Registry.Succession.balanced`): ownership is exact, and a removal leaves all that belongs to
others (`Registry.owned_of_succession`).
-/

namespace PluginRegistry

theorem Contribution.ids_merge (k later : Contribution) (kind : ObjectKind) :
    (k.merge later).ids kind = k.ids kind ++ later.ids kind := by cases kind <;> rfl

theorem RegistryObject.contributor_eq_of_bare_eq {o o' : RegistryObject} (h : o'.bare = o.bare) :
    o'.contributor = o.contributor := by
  rw [← contributor_bare, h, contributor_bare]

namespace Store

variable {s s' : Store} {c : ContributorId} {kind : ObjectKind} {id : ObjectId}

/-! ## The order of content -/

theorem Ordered.of_kept (h : s.Ordered)
    (hkept : ∀ id o, o.kind ≠ .point → s'.object? id = some o → s.object? id = some o) :
    s'.Ordered := fun id o ho hk => h id o (hkept id o hk ho) hk

theorem Ordered.allocate (h : s.Ordered) : s.allocate.2.Ordered :=
  h.of_kept fun id o _ ho => by rwa [object?_allocate] at ho

theorem Ordered.put (h : s.Ordered) {o : RegistryObject}
    (ho : o.children.Pairwise (·.index < ·.index)) (indexed : Bool) :
    (s.put o indexed).Ordered := by
  intro id o' ho' hk
  rw [object?_put] at ho'
  split at ho'
  · cases ho'
    exact ho
  · exact h id o' ho' hk

theorem Ordered.founds {ids : List ObjectId} (h : s.Ordered) (hf : Founds s s' ids) :
    s'.Ordered := by
  refine h.of_kept fun id o hk ho => ?_
  by_cases hlt : id.index < s.nextId
  · rwa [hf.kept id hlt] at ho
  · have hid := (hf.lists.mem_iff id).2 ⟨by omega, index_lt_of_object? ho⟩
    obtain ⟨p, hp, -⟩ := hf.new id hid
    rw [point?_eq_some_iff.1 hp] at ho
    cases ho
    exact absurd rfl hk

theorem sorted_addElements (s : Store) (context : ElementContext) (es : List ElementDecl)
    (hn : (s.addElements context es).2.nextId ≤ UInt32.size) :
    (s.addElements context es).1.Pairwise (·.index < ·.index) := by
  induction es generalizing s with
  | nil => exact .nil
  | cons e es ih =>
    simp only [addElements] at hn ⊢
    have hlt := nextId_le_addElement s context e
    have hle := nextId_le_addElements (s.addElement context e).2 context es
    have hfirst := (grows_addElement s context e (by omega)).2
    have hrest := (grows_addElements (s.addElement context e).2 context es hn).2
    refine List.pairwise_cons.2 ⟨fun id hid => ?_, ih _ hn⟩
    have := (hrest id hid).1
    omega

mutual

theorem ordered_addElement (s : Store) (h : s.Ordered) (context : ElementContext)
    (e : ElementDecl) (hn : (s.addElement context e).2.nextId ≤ UInt32.size) :
    (s.addElement context e).2.Ordered := by
  cases e with
  | mk name properties value children =>
    simp only [addElement] at hn ⊢
    rw [nextId_put] at hn
    have hn' : (s.allocate.2.addElements
        { context with parent := s.allocate.1, parentKind := .element } children).2.nextId ≤
        UInt32.size := by omega
    refine (ordered_addElements _ h.allocate _ _ hn').put ?_ false
    exact sorted_addElements _ _ _ hn'

theorem ordered_addElements (s : Store) (h : s.Ordered) (context : ElementContext)
    (es : List ElementDecl) (hn : (s.addElements context es).2.nextId ≤ UInt32.size) :
    (s.addElements context es).2.Ordered := by
  cases es with
  | nil => exact h
  | cons e es =>
    simp only [addElements] at hn ⊢
    have hle := nextId_le_addElements (s.addElement context e).2 context es
    exact ordered_addElements _ (ordered_addElement s h context e (by omega)) context es hn

end

theorem ordered_addExtension (h : s.Ordered) (p : PreparedDeclaration) (d : ExtensionDecl)
    (hn : (addExtension p s d).2.nextId ≤ UInt32.size) : (addExtension p s d).2.Ordered := by
  simp only [addExtension] at hn ⊢
  rw [nextId_put] at hn
  have hn' : (s.allocate.2.addElements (contentContext p s.allocate.1) d.content).2.nextId ≤
      UInt32.size := by omega
  refine (ordered_addElements _ h.allocate _ _ hn').put ?_ false
  exact sorted_addElements _ _ _ hn'

theorem ordered_addExtensions (h : s.Ordered) (p : PreparedDeclaration) (ds : List ExtensionDecl)
    (hn : (Transaction.addExtensions p s ds).2.nextId ≤ UInt32.size) :
    (Transaction.addExtensions p s ds).2.Ordered := by
  induction ds generalizing s with
  | nil => exact h
  | cons d ds ih =>
    simp only [addExtensions_cons] at hn ⊢
    have hle := nextId_le_addExtensions p (addExtension p s d).2 ds
    exact ih (ordered_addExtension h p d (by omega)) hn

/-! ## Credits -/

theorem credits_congr (h : s'.contribution? c = s.contribution? c) :
    s'.Credits c kind id ↔ s.Credits c kind id := by
  rw [Credits, h, Credits]

theorem Credits.add (h : s.Credits c kind id) (k : Contribution) :
    (s.addContribution k).Credits c kind id := by
  obtain ⟨known, hknown, hid⟩ := h
  by_cases hc : k.contributor = c
  · refine ⟨known.merge k, ?_, ?_⟩
    · rw [contribution?_addContribution, if_pos hc, hknown]
      rfl
    · rw [Contribution.ids_merge]
      exact List.mem_append_left _ hid
  · exact ⟨known, by rw [contribution?_addContribution, if_neg hc, hknown], hid⟩

theorem credits_addContribution (s : Store) (kind : ObjectKind) {k : Contribution}
    (hid : id ∈ k.ids kind) :
    (s.addContribution k).Credits k.contributor kind id := by
  refine ⟨_, by rw [contribution?_addContribution, if_pos rfl], ?_⟩
  cases s.contribution? k.contributor with
  | none => exact hid
  | some known =>
    rw [Option.elim_some, Contribution.ids_merge]
    exact List.mem_append_right _ hid

/-! ## Where links make no difference -/

theorem Balanced.relinked (h : s.Balanced) (hr : Relinked s s') : s'.Balanced where
  typed := h.typed.relinked hr
  rooted := h.rooted.relinked hr
  listed := h.listed.relinked hr
  credited id o ho hk := by
    obtain ⟨o', ho', hb⟩ := hr.object?_bare ho
    have hkind := RegistryObject.kind_eq_of_bare_eq hb
    rw [credits_congr (hr.contribution?_eq _), ← hkind,
      ← RegistryObject.contributor_eq_of_bare_eq hb]
    exact h.credited id o' ho' (hkind ▸ hk)
  ordered := h.ordered.of_kept fun _ _ hk ho => hr.object?_of_kind hk ho

theorem Balanced.mark (h : s.Balanced) (b : Bool) : (s.mark b).Balanced :=
  h.relinked (.of_slots_eq rfl rfl rfl)

/-! ## Without a contributor -/

/-- `s'` is `s` without a contributor: none of its objects and nothing that it contributed is left,
and everything of the others is, with other children at points maybe. -/
structure Without (c : ContributorId) (s s' : Store) : Prop where
  nextId_eq : s'.nextId = s.nextId
  gone : ∀ {id o}, s'.object? id = some o → o.contributor ≠ c
  kept : ∀ {id o}, s.object? id = some o → o.contributor ≠ c →
    ∃ o', s'.object? id = some o' ∧ o'.bare = o.bare
  old : ∀ {id o'}, s'.object? id = some o' → ∃ o, s.object? id = some o ∧ o'.bare = o.bare
  contributions_eq : s'.contributions = s.contributions.filter (·.contributor ≠ c)

theorem contributions_removeContribution_eq (s : Store) (c : ContributorId) :
    (s.removeContribution c).2.contributions = s.contributions.filter (·.contributor ≠ c) := by
  unfold removeContribution
  cases hc : s.contribution? c with
  | some known => rfl
  | none =>
    refine (List.filter_eq_self.2 fun k hk => ?_).symm
    simpa using List.find?_eq_none.1 hc k hk

theorem Without.contribution?_eq (h : Without c s s') (c' : ContributorId) :
    s'.contribution? c' = if c' = c then none else s.contribution? c' := by
  rw [← contribution?_removeContribution]
  exact contribution?_congr
    (h.contributions_eq.trans (contributions_removeContribution_eq s c).symm) c'

end Store

namespace Transaction

open Store (Without)

variable {t : Transaction} {c : ContributorId}

/-! ## Taking a declaration in -/

/-- What is live once a declaration is stored was there before, or is a point or an extension that
is entered in the contribution of the declaration, or an element. -/
theorem object?_stored (hs : t.objects.Sound) (p : PreparedDeclaration)
    (hn : (t.ingest p).2.objects.nextId ≤ UInt32.size) {id : ObjectId} {o : RegistryObject}
    (ho : (t.stored p).2.2.objects.object? id = some o) :
    t.objects.object? id = some o ∨ (∃ d, o = .point (p.point d id) ∧ id ∈ (t.stored p).1) ∨
      (∃ d children, o = .extension (p.extension d id children) ∧ id ∈ (t.stored p).2.1) ∨
      ∃ e, o = .element e := by
  rw [← nextId_stored] at hn
  have hle := Store.nextId_le_addExtensions p (t.addPoints p p.declaration.points).2.objects
    p.declaration.extensions
  have hfounds := founds_addPoints p t p.declaration.points hs (hle.trans hn)
  obtain ⟨hgrows, -⟩ := Store.grows_addExtensions p _ p.declaration.extensions hn
  obtain ⟨_, -, hpoints, -⟩ := forall₂_addPoints p t p.declaration.points hs (hle.trans hn)
  have hextensions := Store.forall₂_addExtensions p _ p.declaration.extensions hn
  rcases Store.object?_grown hfounds hgrows ho with ⟨-, hold⟩ | ⟨hid, -⟩ | ⟨-, hkind, -⟩
  · exact .inl hold
  · obtain ⟨d, hd⟩ := forall_of_forall₂ (P := fun id => ∃ d, _ = some (p.point d id)) hpoints
      (fun hd => ⟨_, hd⟩) id hid
    have hd := Store.point?_eq_some_iff.1 hd
    have hkept := (hgrows.kept id (Store.index_lt_of_object? hd)).trans hd
    exact .inr (.inl ⟨d, Option.some.inj (ho.symm.trans hkept), hid⟩)
  · split at hkind
    · rename_i hid
      obtain ⟨d, children, hd, -⟩ := forall_of_forall₂
        (P := fun id => ∃ d, Store.HoldsExtension _ p id d) hextensions (fun hd => ⟨_, hd⟩) id hid
      have hd := Store.extension?_eq_some_iff.1 hd
      exact .inr (.inr (.inl ⟨d, children, Option.some.inj (ho.symm.trans hd), hid⟩))
    · cases o with
      | element e => exact .inr (.inr (.inr ⟨e, rfl⟩))
      | point q => cases hkind
      | extension e => cases hkind

theorem balanced_ingest (h : t.objects.Settled) (hb : t.objects.Balanced)
    (p : PreparedDeclaration) (hn : (t.ingest p).2.objects.nextId ≤ UInt32.size) :
    (t.ingest p).2.objects.Balanced := by
  obtain ⟨hsettled, t', record, hadds, heq⟩ := settled_ingest h p hn
  have hr := relinked_of_adds hadds
  obtain ⟨s₁, s₂, hp, he, -, hobjects⟩ := founds_stored h.sound p hn
  refine ⟨hsettled.typed, rooted_ingest h hb.rooted p hn, listed_ingest h hb.listed p hn, ?_, ?_⟩
  · intro id o ho hk
    rw [heq, objects_report] at ho ⊢
    obtain ⟨o', ho', hbare⟩ := hr.object?_bare ho
    have hkind := RegistryObject.kind_eq_of_bare_eq hbare
    rw [Store.credits_congr (hr.contribution?_eq _), ← hkind,
      ← RegistryObject.contributor_eq_of_bare_eq hbare, hobjects]
    rw [← hkind] at hk
    have hbefore := Store.contribution?_congr (he.contributions_eq.trans hp.contributions_eq)
    rcases object?_stored h.sound p hn ho' with
      hold | ⟨d, rfl, hid⟩ | ⟨d, children, rfl, hid⟩ | ⟨e, rfl⟩
    · exact ((Store.credits_congr (hbefore _)).2 (hb.credited id o' hold hk)).add _
    · exact Store.credits_addContribution s₂ .point hid
    · exact Store.credits_addContribution s₂ .extension hid
    · exact absurd rfl hk
  · rw [← nextId_stored] at hn
    have hle := Store.nextId_le_addExtensions p (t.addPoints p p.declaration.points).2.objects
      p.declaration.extensions
    have hpoints := hb.ordered.founds (founds_addPoints p t _ h.sound (hle.trans hn))
    have hstored : (t.stored p).2.2.objects.Ordered :=
      Store.ordered_addExtensions hpoints p p.declaration.extensions hn
    rw [heq, objects_report]
    exact hstored.of_kept fun _ _ hk ho => hr.object?_of_kind hk ho

theorem balanced_ingestAll (h : t.objects.Settled) (hb : t.objects.Balanced)
    (ps : List PreparedDeclaration) (hn : (t.ingestAll ps).objects.nextId ≤ UInt32.size) :
    (t.ingestAll ps).objects.Balanced := by
  induction ps generalizing t with
  | nil => exact hb
  | cons p ps ih =>
    have hn' := (nextId_le_ingestAll (t.ingest p).2 ps).trans hn
    exact ih (settled_ingest h p hn').1 (balanced_ingest h hb p hn') hn

/-! ## Taking a contributor out -/

theorem object?_purged (t : Transaction) (c : ContributorId) (id : ObjectId) :
    (t.purged c).object? id = if id ∈ (t.unlinkAll c).2.objects.associated c then none
      else (t.unlinkAll c).2.objects.object? id := by
  rw [purged, Store.object?, (Store.frame_removeContribution _ c).1, ← Store.object?,
    Store.object?_remove]

/-- Taking a contributor out leaves the store without it and touches nothing else. -/
theorem without_removeContributor (h : t.objects.Settled) (hb : t.objects.Balanced)
    (hc : t.objects.hasContribution c = true) :
    Without c t.objects (t.removeContributor c).2.objects := by
  obtain ⟨known, hknown⟩ := Option.isSome_iff_exists.1 hc
  have hr := relinked_of_drops (linked_unlinkAll h hknown).1
  have howned : ∀ id, id ∈ (t.unlinkAll c).2.objects.associated c ↔
      ∃ o, (t.unlinkAll c).2.objects.object? id = some o ∧ o.contributor = c :=
    fun _ => (hb.relinked hr).mem_associated_iff
  obtain ⟨record, heq⟩ := removeContributor_of_known hc
  rw [heq, objects_report]
  constructor
  · exact nextId_purged t c
  · intro id o ho hco
    rw [object?_purged] at ho
    split at ho
    · cases ho
    · rename_i hid
      exact hid ((howned id).2 ⟨o, ho, hco⟩)
  · intro id o ho hco
    obtain ⟨o', ho', hbare⟩ := hr.symm.object?_bare ho
    refine ⟨o', ?_, hbare⟩
    rw [object?_purged, if_neg, ho']
    intro hid
    obtain ⟨o'', ho'', hco'⟩ := (howned id).1 hid
    rw [ho'] at ho''
    cases ho''
    exact hco ((RegistryObject.contributor_eq_of_bare_eq hbare).symm.trans hco')
  · intro id o' ho'
    rw [object?_purged] at ho'
    split at ho'
    · cases ho'
    · obtain ⟨o, ho, hbare⟩ := hr.object?_bare ho'
      exact ⟨o, ho, hbare.symm⟩
  · show (t.purged c).contributions = _
    rw [purged, Store.contributions_removeContribution_eq, (Store.frame_remove _ _).2.1,
      hr.contributions_eq]

theorem balanced_removeContributor (h : t.objects.Settled) (hb : t.objects.Balanced)
    (c : ContributorId) : (t.removeContributor c).2.objects.Balanced := by
  cases hc : t.objects.hasContribution c with
  | false =>
    rw [removeContributor_of_unknown hc]
    exact hb
  | true =>
    have hwithout := without_removeContributor h hb hc
    refine ⟨(settled_removeContributor h c).typed, rooted_removeContributor h hb.rooted c,
      listed_removeContributor h hb.listed c, fun id o' ho' hk => ?_, ?_⟩
    · obtain ⟨o, ho, hbare⟩ := hwithout.old ho'
      have hco := hwithout.contribution?_eq o'.contributor
      rw [if_neg (hwithout.gone ho')] at hco
      have hkind := RegistryObject.kind_eq_of_bare_eq hbare
      rw [Store.credits_congr hco, hkind, RegistryObject.contributor_eq_of_bare_eq hbare]
      exact hb.credited id o ho (hkind ▸ hk)
    · refine hb.ordered.of_kept fun id o' hk ho' => ?_
      obtain ⟨o, ho, hbare⟩ := hwithout.old ho'
      rw [ho, RegistryObject.eq_of_bare_eq hk hbare.symm]

end Transaction

/-! ## Whole runs -/

theorem Write.balanced_perform {r : Registry} (h : r.objects.Settled) (hb : r.objects.Balanced)
    (w : Write) (hn : (w.perform r).objects.nextId ≤ UInt32.size) :
    (w.perform r).objects.Balanced := by
  have hleaves := w.leaves_perform r
  cases ht : w.transaction? r with
  | none =>
    rw [ht] at hleaves
    rw [hleaves.1]
    exact hb
  | some t =>
    rw [ht] at hleaves
    rw [hleaves.1] at hn ⊢
    obtain ⟨t₀, hobjects, -, ⟨prepared, rfl⟩ | ⟨c, rfl⟩⟩ := transaction?_cases ht
    · exact Transaction.balanced_ingestAll (hobjects ▸ h) (hobjects ▸ hb) prepared hn
    · exact Transaction.balanced_removeContributor (hobjects ▸ h) (hobjects ▸ hb) c

namespace Registry

open Cache (plainDigest)
open Store (Without)

variable {digest : DigestFunction} {r₀ r r' : Registry} {c : ContributorId}

/-- Whatever comes after an empty registry has a whole store with balanced books. -/
theorem Succession.balanced (hempty : r₀.objects = .empty) (h : Succession digest r₀ r)
    (hn : r.objects.nextId ≤ UInt32.size) : r.objects.Whole ∧ r.objects.Balanced := by
  induction h with
  | refl =>
    rw [hempty]
    exact ⟨Store.whole_empty, Store.balanced_empty⟩
  | tail _ hstep ih =>
    obtain ⟨hw, hb⟩ := ih (hstep.nextId_le hn)
    refine ⟨(hstep.ages hw hn).1, ?_⟩
    obtain ⟨b, hmark⟩ | ⟨w, rfl⟩ := hstep.objects hw
    · rw [hmark]
      exact hb.mark b
    · exact w.balanced_perform hw.settled hb hn

theorem answer_remove (r : Registry) (c : ContributorId) : (r.remove c).1 =
    if r.stopped then .error .stopped else .ok (r.hasContributor c) := by
  rw [remove, answer_transact]
  split
  · rfl
  · cases hc : r.begin.objects.hasContribution c with
    | false =>
      rw [Transaction.removeContributor_of_unknown hc]
      exact congrArg Except.ok hc.symm
    | true =>
      obtain ⟨record, heq⟩ := Transaction.removeContributor_of_known hc
      rw [heq]
      exact congrArg Except.ok hc.symm

theorem without_remove (h : r.objects.Settled) (hb : r.objects.Balanced)
    (hanswer : (r.remove c).1 = .ok true) : Without c r.objects (r.remove c).2.objects := by
  rw [answer_remove] at hanswer
  have hleaves := (Write.remove c).leaves_perform r
  rw [Write.transaction?] at hleaves
  split at hanswer
  · cases hanswer
  · rw [if_neg ‹_›] at hleaves
    have hobjects : (r.remove c).2.objects = (r.begin.removeContributor c).2.objects := hleaves.1
    rw [hobjects]
    exact Transaction.without_removeContributor (t := r.begin) h hb (Except.ok.inj hanswer)

/-- In whatever comes after an empty registry a contributor owns the live objects that name it, each
listed once, and those of one kind in the same order. So a removal takes out exactly these, and all
that others own stays as it was, but for the children of points. -/
theorem owned_of_succession (hempty : r₀.objects = .empty) (h : Succession digest r₀ r)
    (hn : r.objects.nextId ≤ UInt32.size) (c : ContributorId) :
    (r.objects.associated c).Nodup ∧
    (∀ id, id ∈ r.objects.associated c ↔ ∃ o, r.objects.object? id = some o ∧ o.contributor = c) ∧
    (∀ kind, r.objects.objectsFrom c kind =
      (r.objects.associated c).filter fun id => (r.objects.object? id).any (·.kind = kind)) ∧
    ((r.remove c).1 = .ok true →
      Without c r.objects (r.remove c).2.objects ∧ (r.remove c).2.hasContributor c = false) := by
  obtain ⟨hwhole, hb⟩ := h.balanced hempty hn
  refine ⟨hb.nodup_associated c, fun _ => hb.mem_associated_iff, hb.objectsFrom_eq c,
    fun hanswer => ?_⟩
  have hwithout := without_remove hwhole.settled hb hanswer
  refine ⟨hwithout, ?_⟩
  rw [hasContributor, Store.hasContribution, hwithout.contribution?_eq, if_pos rfl]
  rfl

/-- The linked sample once the owner of the point has brought an item, too. -/
def sampleCrowded : Registry := sampleBringing.perform sampleLinked

theorem succession_sampleCrowded : Succession plainDigest sample sampleCrowded :=
  ((Relation.ReflTransGen.single (.continues (.moment (.turn (.write _ _))))).tail
    (.continues (.moment (.turn (.write _ _))))).tail (.continues (.moment (.turn (.write _ _))))

theorem owned_sampleCrowded :
    sampleCrowded.objects.objectsFrom ⟨1⟩ .element = [⟨3⟩, ⟨4⟩] ∧
    (⟨4⟩ : ObjectId) ∈ sampleCrowded.objects.associated ⟨1⟩ ∧
    (∀ o, (sampleCrowded.remove ⟨1⟩).2.objects.object? ⟨4⟩ = some o → o.contributor ≠ ⟨1⟩) ∧
    ((sampleCrowded.remove ⟨1⟩).2.objects.object? ⟨0⟩).isSome = true ∧
    (sampleCrowded.remove ⟨1⟩).2.hasContributor ⟨1⟩ = false := by
  obtain ⟨-, howned, hkinds, hremove⟩ :=
    owned_of_succession rfl succession_sampleCrowded (by decide +kernel) ⟨1⟩
  obtain ⟨hwithout, hforgotten⟩ := hremove (by decide +kernel)
  have hlive : (sampleCrowded.objects.object? ⟨4⟩).any (·.contributor = ⟨1⟩) := by decide +kernel
  have hother : (sampleCrowded.objects.object? ⟨0⟩).any (·.contributor ≠ ⟨1⟩) := by decide +kernel
  obtain ⟨o, ho, hco⟩ := (Option.any_eq_true _ _).1 hlive
  obtain ⟨o', ho', hco'⟩ := (Option.any_eq_true _ _).1 hother
  refine ⟨(hkinds .element).trans (by decide +kernel), (howned _).2 ⟨o, ho, by simpa using hco⟩,
    fun _ => hwithout.gone, ?_, hforgotten⟩
  obtain ⟨left, hleft, -⟩ := hwithout.kept ho' (by simpa using hco')
  rw [hleft]
  rfl

end Registry

end PluginRegistry
