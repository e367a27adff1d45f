import Mathlib.Logic.Relation
import PluginRegistry.Proofs.Growth
import PluginRegistry.Proofs.Links

/-!
# Taking a declaration in

A store between two writes is `Settled`: objects and index agree, every id in a contribution and
every child in a content tree leads to an object of the right kind if to any, and every extension
is at its place. `settled_ingest` says that taking in a declaration keeps a store settled. The
declaration's points are dark and its extensions pending until they are linked.
-/

namespace PluginRegistry

namespace Store

/-! ## References -/

/-- The id was handed out, and if an object has it, it is of this kind. -/
def Refers (s : Store) (id : ObjectId) (kind : ObjectKind) : Prop :=
  id.index < s.nextId ∧ ∀ o, s.object? id = some o → o.kind = kind

/-- Contributions list points and extensions, and content consists of elements. -/
structure Typed (s : Store) : Prop where
  points : ∀ c ∈ s.contributions, ∀ id ∈ c.points, s.Refers id .point
  extensions : ∀ c ∈ s.contributions, ∀ id ∈ c.extensions, s.Refers id .extension
  content : ∀ id o, s.object? id = some o → o.kind ≠ .point →
    ∀ child ∈ o.children, s.Refers child .element

theorem typed_empty : empty.Typed where
  points c hc := by simp [empty] at hc
  extensions c hc := by simp [empty] at hc
  content id o ho := by simp at ho

theorem Refers.relinked {s s' : Store} (h : Relinked s s') {id : ObjectId} {kind : ObjectKind}
    (hr : s.Refers id kind) : s'.Refers id kind := by
  refine ⟨by rw [h.nextId_eq]; exact hr.1, fun o ho => ?_⟩
  obtain ⟨o', ho', hb⟩ := h.object?_bare ho
  exact (RegistryObject.kind_eq_of_bare_eq hb).symm.trans (hr.2 o' ho')

theorem Typed.relinked {s s' : Store} (h : Relinked s s') (ht : s.Typed) : s'.Typed where
  points c hc id hid := (ht.points c (h.contributions_eq ▸ hc) id hid).relinked h
  extensions c hc id hid := (ht.extensions c (h.contributions_eq ▸ hc) id hid).relinked h
  content id o ho hk child hchild :=
    (ht.content id o (h.object?_of_kind hk ho) hk child hchild).relinked h

/-- What holds of a store between two writes. -/
structure Settled (s : Store) : Prop where
  sound : s.Sound
  typed : s.Typed
  linked : s.Linked [] []

theorem settled_empty : empty.Settled := ⟨sound_empty, typed_empty, linked_empty⟩

/-! ## Contributions -/

theorem mem_addContribution {s : Store} {c k : Contribution}
    (hk : k ∈ (s.addContribution c).contributions) :
    (∀ id ∈ k.points, id ∈ c.points ∨ ∃ k' ∈ s.contributions, id ∈ k'.points) ∧
      ∀ id ∈ k.extensions, id ∈ c.extensions ∨ ∃ k' ∈ s.contributions, id ∈ k'.extensions := by
  simp only [addContribution] at hk
  split at hk
  · obtain ⟨k', hk', rfl⟩ := List.mem_map.1 hk
    split
    · simp only [Contribution.merge, List.mem_append]
      refine ⟨fun id hid => ?_, fun id hid => ?_⟩
      · exact hid.elim (fun h => .inr ⟨k', hk', h⟩) .inl
      · exact hid.elim (fun h => .inr ⟨k', hk', h⟩) .inl
    · exact ⟨fun id hid => .inr ⟨k', hk', hid⟩, fun id hid => .inr ⟨k', hk', hid⟩⟩
  · rcases List.mem_append.1 hk with hk | hk
    · exact ⟨fun id hid => .inr ⟨k, hk, hid⟩, fun id hid => .inr ⟨k, hk, hid⟩⟩
    · rw [List.mem_singleton] at hk
      subst hk
      exact ⟨fun id hid => .inl hid, fun id hid => .inl hid⟩

/-! ## Points -/

/-- New points without children stand behind the objects of `s`, at `ids`. -/
structure Founds (s s' : Store) (ids : List ObjectId) : Prop where
  le : s.nextId ≤ s'.nextId
  kept : ∀ id, id.index < s.nextId → s'.object? id = s.object? id
  lists : Lists ids fun id => s.nextId ≤ id.index ∧ id.index < s'.nextId
  new : ∀ id ∈ ids, ∃ p, s'.point? id = some p ∧ p.children = []
  sound : s'.Sound
  contributions_eq : s'.contributions = s.contributions
  orphans_eq : s'.orphans = s.orphans

theorem Founds.refl {s : Store} (hs : s.Sound) : Founds s s [] where
  le := Nat.le_refl _
  kept _ _ := rfl
  lists := .nil fun id => by omega
  new := by simp
  sound := hs
  contributions_eq := rfl
  orphans_eq := rfl

theorem Sound.found {s : Store} (hs : s.Sound) (hn : s.nextId < UInt32.size) {p : ExtensionPoint}
    (hid : p.id = s.allocate.1) (hname : s.pointNamed? p.uniqueId = none) :
    (s.allocate.2.put (.point p) true).Sound := by
  have hindex : p.id.index = s.nextId := by rw [hid, index_allocate hn]
  have hfree : s.allocate.2.object? p.id = none := by
    rw [object?_allocate, object?_eq_none_of_le (by omega)]
  have hname' : s.allocate.2.pointNamed? p.uniqueId = none := by
    rw [hs.allocate.pointNamed?_eq_none_iff]
    intro id q hq
    rw [point?, object?_allocate] at hq
    exact hs.pointNamed?_eq_none_iff.1 hname id q hq
  exact hs.allocate.put_point hfree hname'

theorem Founds.cons {s s' : Store} {ids : List ObjectId} (hs : s.Sound)
    (hn : s.nextId < UInt32.size) {p : ExtensionPoint} (hid : p.id = s.allocate.1)
    (hname : s.pointNamed? p.uniqueId = none) (hc : p.children = [])
    (h : (s.allocate.2.put (.point p) true).Sound →
      Founds (s.allocate.2.put (.point p) true) s' ids) : Founds s s' (p.id :: ids) := by
  have hindex : p.id.index = s.nextId := by rw [hid, index_allocate hn]
  have h := h (hs.found hn hid hname)
  have hnext : (s.allocate.2.put (.point p) true).nextId = s.nextId + 1 := by
    rw [nextId_put, nextId_allocate, RegistryObject.id, hindex]
    omega
  have hle := h.le
  have hobject : ∀ id : ObjectId, id.index < s'.nextId → id.index ≤ s.nextId →
      s'.object? id = if id = p.id then some (.point p) else s.object? id := by
    intro id _ hle'
    rw [h.kept id (by omega), object?_put, object?_allocate]
    rfl
  refine ⟨by omega, fun id hlt => ?_, ⟨?_, fun id => ?_⟩, fun id hmem => ?_, h.sound,
    h.contributions_eq, h.orphans_eq⟩
  · rw [hobject id (by omega) (by omega), if_neg fun e => by rw [e, hindex] at hlt; omega]
  · refine List.pairwise_cons.2 ⟨fun id hmem => ?_, h.lists.sorted⟩
    have := ((h.lists.mem_iff id).1 hmem).1
    omega
  · rw [List.mem_cons, h.lists.mem_iff, hnext]
    constructor
    · rintro (rfl | hr)
      · omega
      · omega
    · intro hr
      by_cases he : id.index = s.nextId
      · exact .inl (ObjectId.index_inj (by rw [he, hindex]))
      · exact .inr (by omega)
  · rcases List.mem_cons.1 hmem with rfl | hmem
    · refine ⟨p, ?_, hc⟩
      rw [point?_eq_some_iff, hobject p.id (by omega) (by omega), if_pos rfl]
    · exact h.new id hmem

/-! ## New points and new extensions together -/

section Grown

variable {s s₁ s₂ : Store} {points extensions : List ObjectId}

theorem object?_grown (hp : Founds s s₁ points) (he : Grows s₁ s₂ extensions) {id : ObjectId}
    {o : RegistryObject} (ho : s₂.object? id = some o) :
    (id.index < s.nextId ∧ s.object? id = some o) ∨
      (id ∈ points ∧ ∃ p, o = .point p ∧ p.children = []) ∨
      (s.nextId ≤ id.index ∧ o.kind = (if id ∈ extensions then .extension else .element) ∧
        ∀ child ∈ o.children, ∃ e, s₂.object? child = some (.element e)) := by
  have hle := hp.le
  by_cases hold : id.index < s.nextId
  · rw [he.kept id (by omega), hp.kept id hold] at ho
    exact .inl ⟨hold, ho⟩
  · by_cases hmid : id.index < s₁.nextId
    · have hid := (hp.lists.mem_iff id).2 ⟨by omega, hmid⟩
      obtain ⟨p, hpoint, hc⟩ := hp.new id hid
      rw [he.kept id hmid, point?_eq_some_iff.1 hpoint] at ho
      cases ho
      exact .inr (.inl ⟨hid, p, rfl, hc⟩)
    · obtain ⟨o', ho', hk, hc⟩ := he.new id (by omega) (index_lt_of_object? ho)
      rw [ho] at ho'
      cases ho'
      exact .inr (.inr ⟨by omega, hk, fun child hchild => (hc child hchild).2⟩)

theorem object?_of_old (hp : Founds s s₁ points) (he : Grows s₁ s₂ extensions) {id : ObjectId}
    (hid : id.index < s.nextId) : s₂.object? id = s.object? id := by
  have hle := hp.le
  rw [he.kept id (by omega), hp.kept id hid]

theorem point?_grown (hp : Founds s s₁ points) (he : Grows s₁ s₂ extensions) {id : ObjectId}
    {p : ExtensionPoint} (h : s₂.point? id = some p) :
    (id ∉ points ∧ s.point? id = some p) ∨ (id ∈ points ∧ p.children = []) := by
  rcases object?_grown hp he (point?_eq_some_iff.1 h) with ⟨hid, ho⟩ | ⟨hid, q, hq, hc⟩ | ⟨-, hk, -⟩
  · exact .inl ⟨fun hm => by have := ((hp.lists.mem_iff id).1 hm).1; omega,
      point?_eq_some_iff.2 ho⟩
  · cases hq
    exact .inr ⟨hid, hc⟩
  · split at hk <;> cases hk

theorem pointNamed?_of_old (hs : s.Sound) (hp : Founds s s₁ points)
    (he : Grows s₁ s₂ extensions) {u : String} {p : ExtensionPoint}
    (h : s.pointNamed? u = some p) : s₂.pointNamed? u = some p := by
  obtain ⟨hpoint, hu⟩ := hs.pointNamed?_eq_some_iff.1 h
  have hobject := point?_eq_some_iff.1 hpoint
  refine (he.sound hp.sound).pointNamed?_eq_some_iff.2 ⟨?_, hu⟩
  rw [point?_eq_some_iff, object?_of_old hp he (index_lt_of_object? hobject), hobject]

theorem attached_grown (hp : Founds s s₁ points) (he : Grows s₁ s₂ extensions) (u : String)
    (id : ObjectId) : s₂.Attached extensions u id ↔ s.Attached [] u id := by
  simp only [Attached, extension?_eq_some_iff, List.not_mem_nil, not_false_eq_true, true_and]
  constructor
  · rintro ⟨hid, e, ho, hu⟩
    rcases object?_grown hp he ho with ⟨-, ho⟩ | ⟨-, q, hq, -⟩ | ⟨-, hk, -⟩
    · exact ⟨e, ho, hu⟩
    · cases hq
    · rw [if_neg hid] at hk
      cases hk
  · rintro ⟨e, ho, hu⟩
    have hlt := index_lt_of_object? ho
    have hle := hp.le
    refine ⟨fun hm => ?_, e, (object?_of_old hp he hlt).trans ho, hu⟩
    have := (he.range id hm).1
    omega

/-- Before the new objects are linked, the new points are dark and the new extensions pending. -/
theorem linked_grown (hs : s.Sound) (h : s.Linked [] []) (hp : Founds s s₁ points)
    (he : Grows s₁ s₂ extensions) : s₂.Linked extensions points := by
  have hs₂ := he.sound hp.sound
  have horphans : ∀ u, s₂.orphansOf? u = s.orphansOf? u := fun u => by
    rw [orphansOf?, he.orphans_eq, hp.orphans_eq, orphansOf?]
  intro u
  have hatt := attached_grown hp he u
  refine ⟨fun p hn hdark => ?_, fun p hn hdark => ?_, fun hall => ?_⟩
  · obtain ⟨hpoint, hu⟩ := hs₂.pointNamed?_eq_some_iff.1 hn
    rcases point?_grown hp he hpoint with ⟨-, hold⟩ | ⟨hnew, -⟩
    · obtain ⟨hc, hb⟩ := (h u).lit p (hs.pointNamed?_eq_some_iff.2 ⟨hold, hu⟩) (by simp)
      exact ⟨hc.congr hatt, (horphans u).trans hb⟩
    · exact absurd hnew hdark
  · obtain ⟨hpoint, -⟩ := hs₂.pointNamed?_eq_some_iff.1 hn
    rcases point?_grown hp he hpoint with ⟨hold, -⟩ | ⟨-, hc⟩
    · exact absurd hdark hold
    · exact hc
  · have hnone : s.pointNamed? u = none := by
      cases hn : s.pointNamed? u with
      | none => rfl
      | some p =>
        have hnew := hall p (pointNamed?_of_old hs hp he hn)
        have hge := ((hp.lists.mem_iff p.id).1 hnew).1
        have hlt := index_lt_of_object? (point?_eq_some_iff.1 (hs.pointNamed?_eq_some_iff.1 hn).1)
        omega
    obtain ⟨hb, hne⟩ := (h u).parked (by simp [hnone])
    rw [horphans]
    exact ⟨hb.congr hatt, hne⟩

theorem Refers.grown (hp : Founds s s₁ points) (he : Grows s₁ s₂ extensions) {id : ObjectId}
    {kind : ObjectKind} (h : s.Refers id kind) : s₂.Refers id kind := by
  have hle := hp.le
  have hle' := he.le
  exact ⟨by have := h.1; omega, fun o ho => h.2 o (by rwa [object?_of_old hp he h.1] at ho)⟩

theorem typed_grown (h : s.Typed) (hp : Founds s s₁ points) (he : Grows s₁ s₂ extensions)
    (contributor : ContributorId) (ns : String) :
    (s₂.addContribution { contributor, ns, points, extensions }).Typed := by
  have hcontributions : s₂.contributions = s.contributions :=
    he.contributions_eq.trans hp.contributions_eq
  have hle := he.le
  refine ⟨fun c hc id hid => ?_, fun c hc id hid => ?_, fun id o ho hk child hchild => ?_⟩
  · rcases (mem_addContribution hc).1 id hid with hnew | ⟨k, hk, hold⟩
    · have hrange := (hp.lists.mem_iff id).1 hnew
      refine ⟨show id.index < s₂.nextId by omega, fun o ho => ?_⟩
      obtain ⟨p, hpoint, -⟩ := hp.new id hnew
      have ho : s₂.object? id = some o := ho
      rw [he.kept id hrange.2, point?_eq_some_iff.1 hpoint] at ho
      cases ho
      rfl
    · exact (h.points k (hcontributions ▸ hk) id hold).grown hp he
  · rcases (mem_addContribution hc).2 id hid with hnew | ⟨k, hk, hold⟩
    · have hrange := he.range id hnew
      refine ⟨hrange.2, fun o ho => ?_⟩
      obtain ⟨o', ho', hkind, -⟩ := he.new id hrange.1 hrange.2
      have ho : s₂.object? id = some o := ho
      rw [ho'] at ho
      cases ho
      rw [hkind, if_pos hnew]
    · exact (h.extensions k (hcontributions ▸ hk) id hold).grown hp he
  · rcases object?_grown hp he ho with ⟨-, ho⟩ | ⟨-, p, rfl, -⟩ | ⟨-, -, hc⟩
    · exact (h.content id o ho hk child hchild).grown hp he
    · exact absurd rfl hk
    · obtain ⟨e, hchild⟩ := hc child hchild
      refine ⟨index_lt_of_object? hchild, fun o ho => ?_⟩
      have ho : s₂.object? child = some o := ho
      rw [hchild] at ho
      cases ho
      rfl

end Grown

end Store

namespace Transaction

open Store (Founds Grows Relinked Settled)

theorem nextId_le_addPoints (p : PreparedDeclaration) (t : Transaction) (ds : List PointDecl) :
    t.objects.nextId ≤ (t.addPoints p ds).2.objects.nextId := by
  induction ds generalizing t with
  | nil => exact Nat.le_refl _
  | cons d ds ih =>
    simp only [addPoints]
    split
    · exact ih (t.report _)
    · refine Nat.le_trans ?_ (ih _)
      rw [Store.nextId_put, Store.nextId_allocate]
      omega

@[simp] theorem tracker_addPoints (p : PreparedDeclaration) (t : Transaction)
    (ds : List PointDecl) : (t.addPoints p ds).2.tracker = t.tracker := by
  induction ds generalizing t with
  | nil => rfl
  | cons d ds ih =>
    simp only [addPoints]
    split
    · exact ih (t.report _)
    · exact ih _

theorem founds_addPoints (p : PreparedDeclaration) (t : Transaction) (ds : List PointDecl)
    (hs : t.objects.Sound) (hn : (t.addPoints p ds).2.objects.nextId ≤ UInt32.size) :
    Founds t.objects (t.addPoints p ds).2.objects (t.addPoints p ds).1 := by
  induction ds generalizing t with
  | nil => exact .refl hs
  | cons d ds ih =>
    simp only [addPoints] at hn ⊢
    split at hn
    · rename_i htaken
      rw [if_pos htaken]
      exact ih (t.report _) hs hn
    · rename_i hfree
      rw [if_neg hfree]
      have hle := nextId_le_addPoints p _ ds |>.trans hn
      rw [Store.nextId_put, Store.nextId_allocate] at hle
      exact Founds.cons hs (by omega) (p := ⟨_, _, _, _, _, _, _, _⟩) rfl (by simpa using hfree) rfl
        fun hs' => ih _ hs' hn

/-! ## Linking what is new -/

variable {t : Transaction} {points extensions : List ObjectId}

theorem relinked_of_adds {t' : Transaction} (h : Relation.ReflTransGen Adds t t') :
    Relinked t.objects t'.objects := by
  induction h with
  | refl => exact .refl _
  | tail _ hstep ih => exact ih.trans hstep.relinked

theorem linked_linkPoints (hs : t.objects.Sound) (hnodup : points.Nodup)
    (hlive : ∀ id ∈ points, ∃ p, t.objects.point? id = some p)
    (h : t.objects.Linked extensions points) :
    Relation.ReflTransGen Adds t (t.forEach linkPoint points).2 ∧
      (t.forEach linkPoint points).2.objects.Linked extensions [] := by
  have hrun := forEach_induction (f := linkPoint)
    (P := fun ids t' => Relation.ReflTransGen Adds t t' ∧ t'.objects.Linked extensions ids ∧
      ids.Nodup ∧ ∀ id ∈ ids, ∃ p, t.objects.point? id = some p)
    (fun id ids t' ⟨hadds, hl, hn, hids⟩ => ?_) points t ⟨.refl, h, hnodup, hlive⟩
  · exact ⟨hrun.1, hrun.2.1⟩
  · have hr := relinked_of_adds hadds
    have hs' := hr.sound hs
    obtain ⟨p, hp⟩ := hids id List.mem_cons_self
    obtain ⟨children, hp'⟩ := hr.symm.point? hp
    obtain ⟨hnew, hn⟩ := List.nodup_cons.1 hn
    have hid : ({ p with children } : ExtensionPoint).id = id := hs'.point_id hp'
    have hdark : ∀ q, t'.objects.point? id = some q → q.children = [] ∧
        ∀ bucket, t'.objects.orphansOf? q.uniqueId = some bucket →
          bucket ≠ [] ∧ ∀ x ∈ bucket, ∃ e, t'.objects.extension? x = some e := by
      intro q hq
      have hqid := hs'.point_id hq
      subst hqid
      exact ⟨(hl q.uniqueId).unlit q (hs'.pointNamed?_eq_some_iff.2 ⟨hq, rfl⟩) List.mem_cons_self,
        fun bucket hb => hl.live_bucket hs' hq List.mem_cons_self hb⟩
    refine ⟨hadds.tail (adds_linkPoint hs' id hdark), ?_, hn,
      fun id hid => hids id (List.mem_cons_of_mem _ hid)⟩
    rw [← hid] at hp' hnew hl ⊢
    exact linked_linkPoint hs' hp' hnew hl

/-- All pending extensions are linked in the order of their ids, behind those linked already. -/
theorem linked_linkExtensions (hs : t.objects.Sound)
    (hsorted : extensions.Pairwise (·.index < ·.index))
    (hlive : ∀ id ∈ extensions, ∃ e, t.objects.extension? id = some e)
    (hlast : ∀ u x, t.objects.Attached extensions u x → ∀ id ∈ extensions, x.index < id.index)
    (h : t.objects.Linked extensions []) :
    Relation.ReflTransGen Adds t (t.forEach linkExtension extensions).2 ∧
      (t.forEach linkExtension extensions).2.objects.Linked [] [] := by
  have hrun := forEach_induction (f := linkExtension)
    (P := fun ids t' => Relation.ReflTransGen Adds t t' ∧ t'.objects.Linked ids [] ∧
      ids.Pairwise (·.index < ·.index) ∧ (∀ id ∈ ids, ∃ e, t.objects.extension? id = some e) ∧
      ∀ u x, t.objects.Attached ids u x → ∀ id ∈ ids, x.index < id.index)
    (fun id ids t' ⟨hadds, hl, hp, hids, hlt⟩ => ?_) extensions t
    ⟨.refl, h, hsorted, hlive, hlast⟩
  · exact ⟨hrun.1, hrun.2.1⟩
  · have hr := relinked_of_adds hadds
    have hs' := hr.sound hs
    obtain ⟨e, he⟩ := hids id List.mem_cons_self
    obtain ⟨hfirst, hp⟩ := List.pairwise_cons.1 hp
    have hnew : id ∉ ids := fun hm => absurd (hfirst id hm) (Nat.lt_irrefl _)
    refine ⟨hadds.tail (adds_linkExtension hs' id), ?_, hp,
      fun id hid => hids id (List.mem_cons_of_mem _ hid), fun u x hx y hy => ?_⟩
    · refine linked_linkExtension hs' ((hr.extension?_eq id).trans he) hnew (fun u x hx => ?_) hl
      exact hlt u x ((Store.attached_relinked hr _ u x).1 hx) id List.mem_cons_self
    · rcases (Store.attached_of_cons he hnew).1 hx with hx | ⟨rfl, -⟩
      · exact hlt u x hx y (List.mem_cons_of_mem _ hy)
      · exact hfirst y hy

/-! ## Taking a declaration in -/

/-- The new points, the new extensions, and the transaction in which both are stored but not
linked yet. -/
def stored (t : Transaction) (p : PreparedDeclaration) :
    List ObjectId × List ObjectId × Transaction :=
  let (points, t) := t.addPoints p p.declaration.points
  let (extensions, objects) := addExtensions p t.objects p.declaration.extensions
  (points, extensions, { t with
    objects := objects.addContribution
      { contributor := p.declaration.contributor, ns := p.ns, points, extensions } })

/-- Taking a declaration in is to store it, to link it and to report. -/
theorem ingest_eq (t : Transaction) (p : PreparedDeclaration) : ∃ record,
    (t.ingest p).2 =
      ((t.stored p).2.2.linkAll (t.stored p).1 (t.stored p).2.1).2.report record := ⟨_, rfl⟩

@[simp] theorem tracker_stored (t : Transaction) (p : PreparedDeclaration) :
    (t.stored p).2.2.tracker = t.tracker := tracker_addPoints p t p.declaration.points

theorem nextId_stored (t : Transaction) (p : PreparedDeclaration) :
    (t.stored p).2.2.objects.nextId = (t.ingest p).2.objects.nextId := by
  obtain ⟨record, h⟩ := ingest_eq t p
  rw [h, objects_report, nextId_linkAll]

theorem nextId_le_ingest (t : Transaction) (p : PreparedDeclaration) :
    t.objects.nextId ≤ (t.ingest p).2.objects.nextId := by
  rw [← nextId_stored]
  exact (nextId_le_addPoints p t p.declaration.points).trans
    (Store.nextId_le_addExtensions p _ p.declaration.extensions)

theorem founds_stored (hs : t.objects.Sound) (p : PreparedDeclaration)
    (hn : (t.ingest p).2.objects.nextId ≤ UInt32.size) :
    ∃ s₁ s₂, Founds t.objects s₁ (t.stored p).1 ∧ Grows s₁ s₂ (t.stored p).2.1 ∧
      (t.stored p).2.1.Pairwise (·.index < ·.index) ∧
      (t.stored p).2.2.objects = s₂.addContribution
        { contributor := p.declaration.contributor, ns := p.ns,
          points := (t.stored p).1, extensions := (t.stored p).2.1 } := by
  rw [← nextId_stored] at hn
  have hle := Store.nextId_le_addExtensions p (t.addPoints p p.declaration.points).2.objects
    p.declaration.extensions
  obtain ⟨hgrows, hsorted⟩ := Store.grows_addExtensions p _ p.declaration.extensions hn
  exact ⟨_, _, founds_addPoints p t _ hs (hle.trans hn), hgrows, hsorted, rfl⟩

/-- A settled store takes a declaration in by links that are added one after the other, and is
settled afterwards. -/
theorem settled_ingest (h : t.objects.Settled) (p : PreparedDeclaration)
    (hn : (t.ingest p).2.objects.nextId ≤ UInt32.size) :
    (t.ingest p).2.objects.Settled ∧ ∃ t' record,
      Relation.ReflTransGen Adds (t.stored p).2.2 t' ∧ (t.ingest p).2 = t'.report record := by
  obtain ⟨s₁, s₂, hp, he, hsorted, hobjects⟩ := founds_stored h.sound p hn
  have hs₂ := he.sound hp.sound
  have hs : (t.stored p).2.2.objects.Sound := by
    rw [hobjects]
    exact ⟨hs₂.id_eq, hs₂.index_iff⟩
  have htyped : (t.stored p).2.2.objects.Typed := by
    rw [hobjects]
    exact Store.typed_grown h.typed hp he _ _
  have hlinked : (t.stored p).2.2.objects.Linked (t.stored p).2.1 (t.stored p).1 := by
    rw [hobjects]
    intro u
    exact (Store.linked_grown h.sound h.linked hp he u).congr rfl rfl (fun _ => Iff.rfl) (by simp)
  have hlive : ∀ id ∈ (t.stored p).1, ∃ q, (t.stored p).2.2.objects.point? id = some q := by
    intro id hid
    obtain ⟨q, hq, -⟩ := hp.new id hid
    refine ⟨q, ?_⟩
    rw [Store.point?_eq_some_iff] at hq ⊢
    rw [hobjects]
    exact (he.kept id ((hp.lists.mem_iff id).1 hid).2).trans hq
  obtain ⟨hpoints, hl⟩ := linked_linkPoints hs hp.lists.nodup hlive hlinked
  have hr := relinked_of_adds hpoints
  have hlive' : ∀ id ∈ (t.stored p).2.1, ∃ e,
      ((t.stored p).2.2.forEach linkPoint (t.stored p).1).2.objects.extension? id = some e := by
    intro id hid
    have hrange := he.range id hid
    obtain ⟨o, ho, hk, -⟩ := he.new id hrange.1 hrange.2
    rw [if_pos hid] at hk
    rw [hr.extension?_eq, hobjects]
    cases o with
    | extension e => exact ⟨e, Store.extension?_eq_some_iff.2 ho⟩
    | point q => cases hk
    | element e => cases hk
  obtain ⟨hextensions, hl⟩ := linked_linkExtensions (hr.sound hs) hsorted hlive'
    (fun u x hx id hid => by
      rw [Store.attached_relinked hr, hobjects] at hx
      obtain ⟨-, e, hx, -⟩ := (Store.attached_grown hp he u x).1 hx
      have hlt := Store.index_lt_of_object? (Store.extension?_eq_some_iff.1 hx)
      have hge := (he.range id hid).1
      have hle := hp.le
      omega) hl
  have hadds := hpoints.trans hextensions
  have hr := relinked_of_adds hadds
  obtain ⟨record, heq⟩ := ingest_eq t p
  refine ⟨?_, _, record, hadds, heq⟩
  rw [heq]
  exact ⟨hr.sound hs, htyped.relinked hr, hl⟩

end Transaction

end PluginRegistry
