import PluginRegistry.Proofs.Balances

/-!
# Undoing an addition

Where the extensions of a settled store are linked is a matter of its objects alone, so two settled
stores whose objects differ at most in links are linked alike (`Store.Settled.object?_eq`,
`Store.Settled.orphans_eq`). What a new contributor brings (`Store.Brings`) is what is taken out
with it, so taking it out again leaves the store that there was, and the changes of the second write
take back those of the first (`Registry.undone_of_succession`).
-/

namespace PluginRegistry

namespace Store

variable {s s' s'' : Store} {c : ContributorId} {id : ObjectId}

/-! ## Links follow from objects -/

theorem extension?_eq_bare (s : Store) (id : ObjectId) :
    s.extension? id = ((s.object? id).map RegistryObject.bare).bind RegistryObject.extension? := by
  unfold extension?
  cases s.object? id with
  | none => rfl
  | some o => cases o <;> rfl

theorem Settled.object?_eq (h : s.Settled) (h' : s'.Settled)
    (hbare : ∀ id, (s'.object? id).map RegistryObject.bare = (s.object? id).map RegistryObject.bare)
    (id : ObjectId) : s'.object? id = s.object? id := by
  have hattached : ∀ u x, s'.Attached [] u x ↔ s.Attached [] u x := fun u x => by
    simp only [Attached, extension?_eq_bare, hbare]
  have hid := hbare id
  cases ho' : s'.object? id with
  | none =>
    rw [ho', Option.map_none] at hid
    exact (Option.map_eq_none_iff.1 hid.symm).symm
  | some o' =>
    rw [ho', Option.map_some] at hid
    obtain ⟨o, ho, hb⟩ := Option.map_eq_some_iff.1 hid.symm
    rw [ho]
    cases o' with
    | extension e => rw [RegistryObject.bare_eq_extension_iff.1 hb]
    | element e => rw [RegistryObject.bare_eq_element_iff.1 hb]
    | point q =>
      cases o with
      | extension e => cases hb
      | element e => cases hb
      | point p =>
        -- both list the extensions that target the name, in the order of their ids
        have hp := point?_eq_some_iff.2 ho
        have hq := point?_eq_some_iff.2 ho'
        have hpid := h.sound.point_id hp
        have hqid := h'.sound.point_id hq
        subst hpid
        obtain ⟨hpc, -⟩ := (h.linked p.uniqueId).lit p
          (h.sound.pointNamed?_eq_some_iff.2 ⟨hp, rfl⟩) List.not_mem_nil
        obtain ⟨hqc, -⟩ := (h'.linked q.uniqueId).lit q
          (h'.sound.pointNamed?_eq_some_iff.2 ⟨hqid ▸ hq, rfl⟩) List.not_mem_nil
        simp only [RegistryObject.bare, RegistryObject.point.injEq] at hb
        have hname : p.uniqueId = q.uniqueId := congrArg (·.uniqueId) hb
        have hchildren : p.children = q.children :=
          (hname ▸ hpc).eq (hqc.congr fun x => (hattached _ x).symm)
        have hsame : p =
            { ({ p with children := [] } : ExtensionPoint) with children := p.children } := rfl
        rw [hsame, hb, hchildren]

theorem Settled.pointNamed?_eq (h : s.Settled) (h' : s'.Settled)
    (hobject : ∀ id, s'.object? id = s.object? id) (u : String) :
    s'.pointNamed? u = s.pointNamed? u := by
  refine Option.ext fun p => ?_
  rw [h'.sound.pointNamed?_eq_some_iff, h.sound.pointNamed?_eq_some_iff, point?, hobject, point?]

/-- Of two buckets neither of which is empty, one that is missing counts as empty. -/
theorem eq_of_getD_eq {a b : Option (List ObjectId)} (ha : a ≠ some []) (hb : b ≠ some [])
    (h : a.getD [] = b.getD []) : a = b := by
  cases a with
  | none =>
    cases b with
    | none => rfl
    | some bucket => exact absurd (congrArg some h.symm) hb
  | some bucket =>
    cases b with
    | none => exact absurd (congrArg some h) ha
    | some bucket' => exact congrArg some h

theorem Settled.orphans_eq (h : s.Settled) (h' : s'.Settled)
    (hobject : ∀ id, s'.object? id = s.object? id) : s'.orphans = s.orphans := by
  refine Std.ExtTreeMap.ext_getElem? fun u => ?_
  have hattached : ∀ x, s'.Attached [] u x ↔ s.Attached [] u x := fun x => by
    simp only [Attached, extension?, hobject]
  have hnamed := h.pointNamed?_eq h' hobject u
  show s'.orphansOf? u = s.orphansOf? u
  cases hp : s.pointNamed? u with
  | some p =>
    rw [((h.linked u).lit p hp List.not_mem_nil).2,
      ((h'.linked u).lit p (hnamed.trans hp) List.not_mem_nil).2]
  | none =>
    obtain ⟨hl, hne⟩ := (h.linked u).parked (by simp [hp])
    obtain ⟨hl', hne'⟩ := (h'.linked u).parked (by simp [hnamed.trans hp])
    exact eq_of_getD_eq hne' hne ((hl'.congr fun x => (hattached x).symm).eq hl)

theorem objects_eq_of_object?_eq (hle : s.nextId ≤ s'.nextId) (hn : s'.nextId ≤ UInt32.size)
    (hobject : ∀ id, s'.object? id = s.object? id) : s'.objects = s.objects := by
  have hslots : s'.slots.toList =
      s.slots.toList ++ List.replicate (s'.nextId - s.nextId) none := by
    refine List.ext_getElem? fun i => ?_
    rw [Array.getElem?_toList]
    unfold nextId at hle hn ⊢
    by_cases hi' : i < s'.slots.size
    · have hslot := hobject (.ofIndex i)
      simp only [object?, ObjectId.index_ofIndex (Nat.lt_of_lt_of_le hi' hn),
        Array.getElem?_eq_getElem hi', Option.join_some] at hslot
      rw [Array.getElem?_eq_getElem hi', hslot]
      by_cases hi : i < s.slots.size
      · rw [List.getElem?_append_left (by simpa using hi), Array.getElem?_toList,
          Array.getElem?_eq_getElem hi, Option.join_some]
      · rw [List.getElem?_append_right (by simpa using hi), Array.length_toList,
          List.getElem?_replicate_of_lt (by omega), Array.getElem?_eq_none (by omega)]
        rfl
    · rw [Array.getElem?_eq_none (by omega), List.getElem?_eq_none]
      rw [List.length_append, Array.length_toList, List.length_replicate]
      omega
  rw [objects, hslots, List.filterMap_append]
  simp [objects]

/-! ## What a contributor brings -/

/-- `s'` is `s` with new objects behind those of `s`, all of one contributor. If it is new, its
contribution comes last. -/
structure Brings (c : ContributorId) (s s' : Store) : Prop where
  le : s.nextId ≤ s'.nextId
  bare_eq : ∀ id : ObjectId, id.index < s.nextId →
    (s'.object? id).map RegistryObject.bare = (s.object? id).map RegistryObject.bare
  new : ∀ {id o}, s'.object? id = some o → s.nextId ≤ id.index → o.contributor = c
  contributions_eq : s.hasContribution c = false →
    ∃ k : Contribution, k.contributor = c ∧ s'.contributions = s.contributions ++ [k]

theorem Balanced.contributor_ne (h : s.Balanced) (hc : s.hasContribution c = false)
    {o : RegistryObject} (ho : s.object? id = some o) : o.contributor ≠ c := by
  rintro rfl
  obtain ⟨known, hknown⟩ := exists_of_mem_associated (h.mem_associated ho)
  rw [hasContribution, hknown] at hc
  cases hc

theorem Brings.without (h : Brings c s s') (h' : Without c s' s'') (hb : s.Balanced)
    (hc : s.hasContribution c = false) :
    (∀ id, (s''.object? id).map RegistryObject.bare = (s.object? id).map RegistryObject.bare) ∧
      s''.contributions = s.contributions := by
  constructor
  · intro id
    by_cases hlt : id.index < s.nextId
    · have hbare := h.bare_eq id hlt
      cases ho : s.object? id with
      | some o =>
        rw [ho, Option.map_some] at hbare
        obtain ⟨o', ho', hb'⟩ := Option.map_eq_some_iff.1 hbare
        have hne := hb.contributor_ne hc ho
        rw [← RegistryObject.contributor_eq_of_bare_eq hb'] at hne
        obtain ⟨o'', ho'', hb''⟩ := h'.kept ho' hne
        rw [ho'', Option.map_some, Option.map_some, hb'', hb']
      | none =>
        rw [ho, Option.map_none, Option.map_eq_none_iff] at hbare
        cases ho'' : s''.object? id with
        | none => rfl
        | some o'' =>
          obtain ⟨o', ho', -⟩ := h'.old ho''
          rw [hbare] at ho'
          cases ho'
    · rw [object?_eq_none_of_le (Nat.le_of_not_lt hlt)]
      cases ho'' : s''.object? id with
      | none => rfl
      | some o'' =>
        -- what is new belongs to the contributor, and that has nothing left
        obtain ⟨o', ho', hb'⟩ := h'.old ho''
        have hco := h.new ho' (Nat.le_of_not_lt hlt)
        exact absurd ((RegistryObject.contributor_eq_of_bare_eq hb').trans hco) (h'.gone ho'')
  · obtain ⟨k, hk, heq⟩ := h.contributions_eq hc
    have hothers : ∀ k' ∈ s.contributions, k'.contributor ≠ c := by
      rintro k' hk' rfl
      rw [hasContribution_iff.2 (List.mem_map_of_mem hk')] at hc
      cases hc
    rw [h'.contributions_eq, heq, List.filter_append,
      List.filter_eq_self.2 fun k' hk' => decide_eq_true (hothers k' hk')]
    simp [hk]

end Store

namespace Transaction

open Store (Brings)

variable {t : Transaction}

theorem contributor_of_new (h : t.objects.Settled) (hb : t.objects.Balanced)
    (p : PreparedDeclaration) (hn : (t.ingest p).2.objects.nextId ≤ UInt32.size) {id : ObjectId}
    {o : RegistryObject} (ho : (t.ingest p).2.objects.object? id = some o)
    (hnew : t.objects.nextId ≤ id.index) : o.contributor = p.declaration.contributor := by
  obtain ⟨-, t', record, hadds, heq⟩ := settled_ingest h p hn
  have hr := relinked_of_adds hadds
  have hages := ages_ingest h p hn
  have hrooted := rooted_ingest h hb.rooted p hn
  induction hindex : id.index using Nat.strongRecOn generalizing id o with
  | _ n ih =>
    have hstored := ho
    rw [heq, objects_report] at hstored
    obtain ⟨o', ho', hbare⟩ := hr.object?_bare hstored
    rw [← RegistryObject.contributor_eq_of_bare_eq hbare]
    rcases object?_stored h.sound p hn ho' with
      hold | ⟨d, rfl, -⟩ | ⟨d, children, rfl, -⟩ | ⟨e, rfl⟩
    · exact absurd (Store.index_lt_of_object? hold) (by omega)
    · rfl
    · rfl
    · obtain rfl : o = .element e := RegistryObject.bare_eq_element_iff.1 hbare.symm
      obtain ⟨above, habove, hkind, hmem⟩ := hrooted.parent (Store.element?_eq_some_iff.2 ho)
      have hk : above.kind ≠ .point := hkind ▸ ParentKind.objectKind_ne_point _
      obtain ⟨-, -, hlt, e', he', -, -, hco⟩ := hrooted.child habove hk id hmem
      rw [Store.element?_eq_some_iff, ho] at he'
      cases he'
      refine hco.trans (ih _ (hindex ▸ hlt) habove ?_ rfl)
      -- an old object has only old children
      by_contra hold
      have habove := hages.same (Nat.lt_of_not_le hold) hk habove
      obtain ⟨-, -, -, a, ha, -⟩ := hb.rooted.child habove hk id hmem
      exact absurd (Store.index_lt_of_object? (Store.element?_eq_some_iff.1 ha)) (by omega)

theorem brings_ingest (h : t.objects.Settled) (hb : t.objects.Balanced) (p : PreparedDeclaration)
    (hn : (t.ingest p).2.objects.nextId ≤ UInt32.size) :
    Brings p.declaration.contributor t.objects (t.ingest p).2.objects := by
  obtain ⟨-, t', record, hadds, heq⟩ := settled_ingest h p hn
  have hr := relinked_of_adds hadds
  obtain ⟨s₁, s₂, hp, he, -, hobjects⟩ := founds_stored h.sound p hn
  have hbefore : s₂.contributions = t.objects.contributions :=
    he.contributions_eq.trans hp.contributions_eq
  refine ⟨nextId_le_ingest t p, fun id hlt => ?_,
    fun ho hnew => contributor_of_new h hb p hn ho hnew, fun hc => ?_⟩
  · rw [heq, objects_report, hr.bare_eq, hobjects]
    exact congrArg _ (Store.object?_of_old hp he hlt)
  · refine ⟨⟨p.declaration.contributor, p.ns, (t.stored p).1, (t.stored p).2.1⟩, rfl, ?_⟩
    rw [heq, objects_report, hr.contributions_eq, hobjects, ← hbefore]
    have hfirst : s₂.hasContribution p.declaration.contributor = false := by
      rw [Store.hasContribution, Store.contribution?_congr hbefore, ← Store.hasContribution, hc]
    simp [Store.addContribution, hfirst]

end Transaction

/-! ## Links that stay -/

namespace Store

variable {s s' : Store} {c : ContributorId} {x q : ObjectId}

/-- A live extension is linked to the live point that it targets, and to no other. -/
theorem Settled.hasLink_iff (h : s.Settled) : s.HasLink x q ↔
    ∃ p e, s.point? q = some p ∧ s.extension? x = some e ∧ e.target = p.uniqueId := by
  have hchildren : ∀ p, s.point? q = some p →
      (x ∈ p.children ↔ ∃ e, s.extension? x = some e ∧ e.target = p.uniqueId) := by
    intro p hp
    have hid := h.sound.point_id hp
    subst hid
    obtain ⟨hl, -⟩ := (h.linked p.uniqueId).lit p
      (h.sound.pointNamed?_eq_some_iff.2 ⟨hp, rfl⟩) List.not_mem_nil
    rw [hl.mem_iff, Attached, and_iff_right List.not_mem_nil]
  constructor
  · rintro ⟨p, hp, hx⟩
    obtain ⟨e, he, htarget⟩ := (hchildren p hp).1 hx
    exact ⟨p, e, hp, he, htarget⟩
  · rintro ⟨p, e, hp, he, htarget⟩
    exact ⟨p, hp, (hchildren p hp).2 ⟨e, he, htarget⟩⟩

theorem Brings.hasLink (h : Brings c s s') (hs : s.Settled) (hs' : s'.Settled)
    (hlink : s.HasLink x q) : s'.HasLink x q := by
  obtain ⟨p, e, hp, he, htarget⟩ := hs.hasLink_iff.1 hlink
  rw [point?_eq_some_iff] at hp
  have hpoint := h.bare_eq q (index_lt_of_object? hp)
  have hextension := h.bare_eq x (index_lt_of_object? (extension?_eq_some_iff.1 he))
  rw [hp, Option.map_some] at hpoint
  obtain ⟨o, ho, hb⟩ := Option.map_eq_some_iff.1 hpoint
  cases o with
  | extension f => cases hb
  | element f => cases hb
  | point p' =>
    simp only [RegistryObject.bare, RegistryObject.point.injEq] at hb
    have hname : p'.uniqueId = p.uniqueId := congrArg (·.uniqueId) hb
    refine hs'.hasLink_iff.2 ⟨p', e, point?_eq_some_iff.2 ho, ?_, htarget.trans hname.symm⟩
    rw [extension?_eq_bare, hextension, ← extension?_eq_bare, he]

/-- Where links are only added, and then all points are as before, the second difference is the
first one the other way round. -/
theorem differs_back {s'' : Store} (hkeeps : ∀ {x q}, s.HasLink x q → s'.HasLink x q)
    (hback : ∀ id, s''.point? id = s.point? id) (ns : String) (δ : ExtensionDelta) :
    (s.Differs s' ns δ → δ.kind = .added) ∧
      (s'.Differs s'' ns δ ↔ δ.kind = .removed ∧ s.Differs s' ns { δ with kind := .added }) := by
  have hlink : ∀ {x q}, s''.HasLink x q ↔ s.HasLink x q := by
    intro x q
    simp only [hasLink_iff, linkIn_of_point?_eq hback]
  obtain ⟨x, q, kind⟩ := δ
  cases kind with
  | added =>
    refine ⟨fun _ => rfl, fun h => ?_, fun h => nomatch h.1⟩
    exact absurd (hkeeps (hlink.1 h.1.hasLink)) h.2
  | removed =>
    refine ⟨fun h => absurd (hkeeps h.1.hasLink) h.2, ?_⟩
    simp only [Differs, hlink, true_and]

end Store

/-! ## Adding and removing -/

namespace Registry

open Cache (plainDigest)
open Store (Brings)

variable {digest : DigestFunction} {r₀ r : Registry} {d : Declaration}

theorem brings_add (h : r.objects.Settled) (hb : r.objects.Balanced) (hs : r.stopped = false)
    {ns : String} (hns : r.strategy.namespaces.find? d.contributor = some ns)
    (hn : (r.add d).2.objects.nextId ≤ UInt32.size) :
    (r.add d).1 = .ok () ∧ Brings d.contributor r.objects (r.add d).2.objects := by
  obtain ⟨t, hobjects, htaken⟩ := objects_of_ingestion hs [d]
  have hprepared : [d].filterMap r.strategy.prepare =
      [{ declaration := d, ns, owner := r.strategy.ownerOf d.contributor }] := by
    simp [Strategy.prepare, hns]
  have hadd := htaken _ (leaves_addAll r [d])
  rw [hprepared] at hadd
  refine ⟨?_, ?_⟩
  · rw [add, answer_addAll, hs]
    simp
  · change (r.add d).2.objects = (t.ingest ⟨d, ns, r.strategy.ownerOf d.contributor⟩).2.objects
      at hadd
    rw [hadd] at hn ⊢
    rw [← hobjects] at h hb ⊢
    exact Transaction.brings_ingest h hb _ hn

/-- When a contributor without a contribution adds a declaration and is taken out again, the store
has the parts that it had, but for the next id, and the changes of the removal take back those of
the addition. -/
theorem undone_of_succession (hempty : r₀.objects = .empty) (h : Succession digest r₀ r)
    (hs : r.stopped = false) {ns : String}
    (hns : r.strategy.namespaces.find? d.contributor = some ns)
    (hnew : r.hasContributor d.contributor = false)
    (hn : (r.add d).2.objects.nextId ≤ UInt32.size) :
    (r.add d).1 = .ok () ∧
    ((r.add d).2.remove d.contributor).1 = .ok true ∧
    { ((r.add d).2.remove d.contributor).2.objects.toParts with
      nextId := r.objects.toParts.nextId } = r.objects.toParts ∧
    r.objects.nextId ≤ ((r.add d).2.remove d.contributor).2.objects.nextId ∧
    (r.listeners ≠ [] →
      (∀ ns δ, ((Write.add d).deltas r).Files ns δ → δ.kind = .added) ∧
      ∀ ns δ, ((Write.remove d.contributor).deltas (r.add d).2).Files ns δ ↔
        δ.kind = .removed ∧ ((Write.add d).deltas r).Files ns { δ with kind := .added }) := by
  obtain ⟨hwhole, hb⟩ := h.balanced hempty (((Write.add d).nextId_le_perform r).trans hn)
  have hkeeps := (Write.add d).keeps_perform r
  have hstopped : (r.add d).2.stopped = false := hkeeps.stopped_eq.trans hs
  obtain ⟨hadded, hbrings⟩ := brings_add hwhole.settled hb hs hns hn
  have hsettled : (r.add d).2.objects.Settled :=
    Write.settled_perform (w := .add d) hwhole.settled hn
  have hb' : (r.add d).2.objects.Balanced := (Write.add d).balanced_perform hwhole.settled hb hn
  have hanswer : ((r.add d).2.remove d.contributor).1 = .ok true := by
    obtain ⟨k, hk, heq⟩ := hbrings.contributions_eq hnew
    rw [answer_remove, hstopped, hasContributor, Store.hasContribution_iff.2]
    · rfl
    · rw [heq, ← hk]
      exact List.mem_map_of_mem List.mem_concat_self
  have hwithout := without_remove hsettled hb' hanswer
  have hn' : ((r.add d).2.remove d.contributor).2.objects.nextId ≤ UInt32.size :=
    hwithout.nextId_eq ▸ hn
  have hle : r.objects.nextId ≤ ((r.add d).2.remove d.contributor).2.objects.nextId :=
    ((Write.add d).nextId_le_perform r).trans
      ((Write.remove d.contributor).nextId_le_perform (r.add d).2)
  have hsettled' : ((r.add d).2.remove d.contributor).2.objects.Settled :=
    Write.settled_perform (w := .remove d.contributor) hsettled hn'
  -- the objects are the same up to links, and the store is settled before and after
  obtain ⟨hbare, hcontributions⟩ := hbrings.without hwithout hb hnew
  have hobject := hwhole.settled.object?_eq hsettled' hbare
  refine ⟨hadded, hanswer, ?_, hle, fun hl => ?_⟩
  · simp only [Store.toParts, Store.objects_eq_of_object?_eq hle hn' hobject, hcontributions,
      hwhole.settled.orphans_eq hsettled' hobject]
  · have hexact := ((Write.add d).exact_deltas hwhole.settled hn hl).1.files_iff
    have hexact' := ((Write.remove d.contributor).exact_deltas hsettled hn'
      fun hnone => hl (hkeeps.listeners_eq.symm.trans hnone)).1.files_iff
    have hpoint : ∀ id, ((r.add d).2.remove d.contributor).2.objects.point? id =
        r.objects.point? id := fun id => by rw [Store.point?, hobject, Store.point?]
    have hback := Store.differs_back (fun {_ _} => hbrings.hasLink hwhole.settled hsettled) hpoint
    refine ⟨fun ns δ hfiles => (hback ns δ).1 ((hexact ns δ).1 hfiles), fun ns δ => ?_⟩
    rw [hexact', hexact]
    exact (hback ns δ).2

/-- A declaration of the point that is waited for, with an item for it. -/
def sampleMenu : Declaration where
  contributor := ⟨1⟩
  points := [{ localId := "menu" }]
  extensions := [sampleItem]

theorem undone_sampleMenu :
    ((sampleWaiting.add sampleMenu).2.remove ⟨1⟩).1 = .ok true ∧
    ((sampleWaiting.add sampleMenu).2.remove ⟨1⟩).2.objects.toParts =
      { sampleWaiting.objects.toParts with nextId := 5 } ∧
    ((Write.remove ⟨1⟩).deltas (sampleWaiting.add sampleMenu).2).Files "ui" ⟨⟨0⟩, ⟨1⟩, .removed⟩ ∧
    ((Write.remove ⟨1⟩).deltas (sampleWaiting.add sampleMenu).2).Files "ui"
      ⟨⟨2⟩, ⟨1⟩, .removed⟩ := by
  have hrun : Succession plainDigest sample sampleWaiting :=
    .single (.continues (.moment (.turn (.write _ _))))
  have hns : sampleWaiting.strategy.namespaces.find? sampleMenu.contributor = some "ui" := by
    decide +kernel
  obtain ⟨-, hremoved, hparts, -, hchanges⟩ := undone_of_succession rfl hrun
    (by decide +kernel) hns (by decide +kernel) (by decide +kernel)
  obtain ⟨-, hback⟩ := hchanges (by decide +kernel)
  have hfiles : ∀ x : ObjectId, x = ⟨0⟩ ∨ x = ⟨2⟩ →
      ∃ entry ∈ ((Write.add sampleMenu).deltas sampleWaiting).entries,
        entry.ns = "ui" ∧ ⟨x, ⟨1⟩, .added⟩ ∈ entry.deltas := by
    rintro x (rfl | rfl) <;> decide +kernel
  have hnext : ((sampleWaiting.add sampleMenu).2.remove ⟨1⟩).2.objects.toParts.nextId = 5 := by
    decide +kernel
  refine ⟨hremoved, ?_, (hback _ _).2 ⟨rfl, hfiles _ (.inl rfl)⟩,
    (hback _ _).2 ⟨rfl, hfiles _ (.inr rfl)⟩⟩
  rw [← hparts, ← hnext]
  rfl

end Registry

end PluginRegistry
