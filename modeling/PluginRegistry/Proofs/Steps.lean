import PluginRegistry.Proofs.Relink
import PluginRegistry.Transaction

/-!
# The four steps of linking

What `linkExtension`, `linkPoint`, `unlinkExtension` and `unlinkPoint` do, said once for each case:
either only the orphans change and nothing is recorded, or one point gets other children
(`Store.Regroups`) and the extensions that come or go are recorded.
-/

namespace PluginRegistry

/-! ## Lists without repeats -/

theorem nodup_eraseDups {α : Type} [BEq α] [LawfulBEq α] (l : List α) : l.eraseDups.Nodup := by
  induction hn : l.length using Nat.strongRecOn generalizing l with
  | _ n ih =>
    cases l with
    | nil => simp
    | cons a l =>
      have hlt : (l.filter fun b => !b == a).length < n := by
        have := List.length_filter_le (fun b => !b == a) l
        rw [← hn, List.length_cons]
        omega
      rw [List.eraseDups_cons, List.nodup_cons]
      refine ⟨?_, ih _ hlt _ rfl⟩
      simp [List.mem_eraseDups]

theorem eraseDups_eq_self {α : Type} [BEq α] [LawfulBEq α] {l : List α} (h : l.Nodup) :
    l.eraseDups = l := by
  induction l with
  | nil => rfl
  | cons a l ih =>
    obtain ⟨ha, hl⟩ := List.nodup_cons.1 h
    have hf : l.filter (fun b => !b == a) = l := by
      rw [List.filter_eq_self]
      intro b hb
      have hne : b ≠ a := fun e => ha (e ▸ hb)
      simpa using hne
    rw [List.eraseDups_cons, hf, ih hl]

namespace Transaction

open Store (Relinked Regroups Sound)

variable {t : Transaction} {id : ObjectId} {e : Extension} {p : ExtensionPoint}

@[simp] theorem objects_report (t : Transaction) (r : LogRecord) :
    (t.report r).objects = t.objects := rfl

@[simp] theorem tracker_report (t : Transaction) (r : LogRecord) :
    (t.report r).tracker = t.tracker := rfl

@[simp] theorem objects_capture (t : Transaction) (id : ObjectId) :
    (t.capture id).objects = t.objects := by
  unfold capture
  split <;> rfl

@[simp] theorem objects_record (t : Transaction) (p : ExtensionPoint) (ids : List ObjectId)
    (kind : DeltaKind) : (t.record p ids kind).2.objects = t.objects := by
  unfold record
  split
  · rfl
  · have step : ∀ (ids : List ObjectId) (t : Transaction), (ids.foldl (fun t extension =>
        let t := t.capture extension
        { t with tracker := t.tracker.record p.ns { extension, point := p.id, kind } }) t).objects =
          t.objects := by
      intro ids
      induction ids with
      | nil => exact fun _ => rfl
      | cons id ids ih => exact fun t => (ih _).trans (objects_capture t id)
    exact step ids _

/-- Only the orphans changed and nothing was recorded. -/
structure Parks (t t' : Transaction) : Prop where
  slots_eq : t'.objects.slots = t.objects.slots
  pointIndex_eq : t'.objects.pointIndex = t.objects.pointIndex
  contributions_eq : t'.objects.contributions = t.objects.contributions
  tracker_eq : t'.tracker = t.tracker

/-- One point got other children, and the extensions `ids` were recorded for it. -/
def Moves (t : Transaction) (p : ExtensionPoint) (children ids : List ObjectId) (kind : DeltaKind)
    (t' : Transaction) : Prop :=
  ∃ t₁ : Transaction, t.objects.Regroups p children t₁.objects ∧ t₁.tracker = t.tracker ∧
    t' = (t₁.record { p with children } ids kind).2

theorem Parks.refl (t : Transaction) : Parks t t := ⟨rfl, rfl, rfl, rfl⟩

theorem Parks.relinked {t t' : Transaction} (h : Parks t t') : Relinked t.objects t'.objects :=
  .of_slots_eq h.slots_eq h.pointIndex_eq h.contributions_eq

theorem Moves.regroups {t t' : Transaction} {children ids : List ObjectId} {kind : DeltaKind}
    (h : Moves t p children ids kind t') : t.objects.Regroups p children t'.objects := by
  obtain ⟨t₁, hr, -, rfl⟩ := h
  rwa [objects_record]

/-! ## No step hands out ids -/

section NextId

theorem nextId_setPointChildren {s s' : Store} {children : List ObjectId} {q : ExtensionPoint}
    (h : s.setPointChildren id children = some (q, s')) : s'.nextId = s.nextId := by
  unfold Store.setPointChildren at h
  obtain ⟨p, -, hp⟩ := Option.map_eq_some_iff.1 h
  cases hp
  simp [Store.nextId]

@[simp] theorem nextId_linkExtension (t : Transaction) (id : ObjectId) :
    (t.linkExtension id).2.objects.nextId = t.objects.nextId := by
  unfold linkExtension
  split
  · rfl
  · split
    · simp [Store.nextId]
    · split
      · rfl
      · split
        · rfl
        · rename_i hset
          simpa using nextId_setPointChildren hset

@[simp] theorem nextId_linkPoint (t : Transaction) (id : ObjectId) :
    (t.linkPoint id).2.objects.nextId = t.objects.nextId := by
  unfold linkPoint
  split
  · rfl
  · split
    · rfl
    · rename_i htake
      obtain ⟨bucket, -, htaken⟩ := Option.map_eq_some_iff.1 htake
      cases htaken
      simp only
      split
      · rfl
      · rename_i hset
        simpa [Store.nextId] using nextId_setPointChildren hset

@[simp] theorem nextId_unlinkExtension (t : Transaction) (id : ObjectId) :
    (t.unlinkExtension id).2.objects.nextId = t.objects.nextId := by
  unfold unlinkExtension
  split
  · rfl
  · simp only
    split
    · simp [Store.nextId]
    · split
      · rfl
      · rename_i hset
        simpa using nextId_setPointChildren hset

@[simp] theorem nextId_unlinkPoint (t : Transaction) (id : ObjectId) :
    (t.unlinkPoint id).2.objects.nextId = t.objects.nextId := by
  unfold unlinkPoint
  split
  · rfl
  · simp only
    split
    · rfl
    · split
      · simp [Store.nextId]
      · rename_i hset
        simpa [Store.nextId] using nextId_setPointChildren hset

theorem nextId_forEach {step : Transaction → ObjectId → Option String × Transaction}
    (hstep : ∀ t id, (step t id).2.objects.nextId = t.objects.nextId) (t : Transaction)
    (ids : List ObjectId) : (t.forEach step ids).2.objects.nextId = t.objects.nextId := by
  induction ids generalizing t with
  | nil => rfl
  | cons id ids ih => exact (ih _).trans (hstep t id)

@[simp] theorem nextId_linkAll (t : Transaction) (points extensions : List ObjectId) :
    (t.linkAll points extensions).2.objects.nextId = t.objects.nextId :=
  (nextId_forEach nextId_linkExtension _ _).trans (nextId_forEach nextId_linkPoint _ _)

@[simp] theorem nextId_unlinkAll (t : Transaction) (c : ContributorId) :
    (t.unlinkAll c).2.objects.nextId = t.objects.nextId :=
  (nextId_forEach nextId_unlinkPoint _ _).trans (nextId_forEach nextId_unlinkExtension _ _)

end NextId

/-! ## Linking an extension -/

theorem linkExtension_parks (he : t.objects.extension? id = some e)
    (hp : t.objects.pointNamed? e.target = none) :
    Parks t (t.linkExtension id).2 ∧ ∀ u, (t.linkExtension id).2.objects.orphansOf? u =
      if e.target = u then some ((t.objects.orphansOf? u).getD [] ++ [id])
      else t.objects.orphansOf? u := by
  unfold linkExtension
  simp only [he, hp]
  refine ⟨⟨by simp, by simp, by simp, rfl⟩, fun u => ?_⟩
  simp only [objects_report, Store.orphansOf?_addOrphans]
  by_cases hu : e.target = u
  · simp [hu]
  · simp [hu]

theorem linkExtension_moves (hs : t.objects.Sound) (he : t.objects.extension? id = some e)
    (hp : t.objects.pointNamed? e.target = some p) (hid : id ∉ p.children) :
    Moves t p (p.children ++ [id]) [id] .added (t.linkExtension id).2 ∧
      (t.linkExtension id).2.objects.orphans = t.objects.orphans := by
  have hpoint := (hs.pointNamed?_eq_some_iff.1 hp).1
  obtain ⟨s', hset, hr, ho⟩ := Store.exists_setPointChildren hs hpoint (p.children ++ [id])
  have hc : p.children.contains id = false := by simpa using hid
  unfold linkExtension
  simp only [he, hp, hc, hset, Bool.false_eq_true, if_false]
  refine ⟨⟨{ t with objects := s' }.report (.extensionLinked id p.uniqueId), hr, rfl, rfl⟩, ?_⟩
  simpa using ho

/-! ## Linking a point -/

theorem linkPoint_of_no_orphans (hp : t.objects.point? id = some p)
    (hb : t.objects.orphansOf? p.uniqueId = none) : (t.linkPoint id).2 = t := by
  unfold linkPoint
  simp only [hp, Store.takeOrphans_of_none hb]

theorem linkPoint_moves (hs : t.objects.Sound) (hp : t.objects.point? p.id = some p)
    {bucket : List ObjectId} (hb : t.objects.orphansOf? p.uniqueId = some bucket) :
    Moves t p bucket.eraseDups bucket.eraseDups .added (t.linkPoint p.id).2 ∧
      ∀ u, (t.linkPoint p.id).2.objects.orphansOf? u =
        if p.uniqueId = u then none else t.objects.orphansOf? u := by
  obtain ⟨s₁, htake, horphans, hslots, hindex, hcontributions⟩ := Store.takeOrphans_of_some hb
  have hr₁ := Relinked.of_slots_eq hslots hindex hcontributions
  obtain ⟨s', hset, hr, ho⟩ := Store.exists_setPointChildren (hr₁.sound hs)
    (p := p) (by rw [Store.point?_congr hslots, hp]) bucket.eraseDups
  unfold linkPoint
  simp only [hp, htake, hset]
  refine ⟨⟨{ t with objects := s' }.report (.orphansLinked p.uniqueId bucket.eraseDups.length),
    hr.of_slots_eq hslots hindex hcontributions, rfl, rfl⟩, fun u => ?_⟩
  simp only [objects_record, objects_report, ← horphans]
  rw [Store.orphansOf?, ho, Store.orphansOf?]

/-! ## Unlinking an extension -/

theorem unlinkExtension_of_none (he : t.objects.extension? id = none) :
    (t.unlinkExtension id).2 = t := by
  unfold unlinkExtension
  simp only [he]

theorem unlinkExtension_parks (he : t.objects.extension? id = some e)
    (hp : ∀ p, t.objects.pointNamed? e.target = some p → id ∉ p.children) :
    Parks t (t.unlinkExtension id).2 ∧
      (t.unlinkExtension id).2.objects = (t.objects.removeOrphan e.target id).2 := by
  have hlinked : (t.objects.pointNamed? e.target).filter (·.children.contains id) = none := by
    cases hn : t.objects.pointNamed? e.target with
    | none => rfl
    | some p => simpa using hp p hn
  unfold unlinkExtension
  simp only [he, hlinked]
  exact ⟨⟨by simp, by simp, by simp, rfl⟩, trivial⟩

theorem unlinkExtension_moves (hs : t.objects.Sound) (he : t.objects.extension? id = some e)
    (hp : t.objects.pointNamed? e.target = some p) (hid : id ∈ p.children) :
    Moves t p (p.children.filter (· ≠ id)) [id] .removed (t.unlinkExtension id).2 ∧
      (t.unlinkExtension id).2.objects.orphans = t.objects.orphans := by
  have hpoint := (hs.pointNamed?_eq_some_iff.1 hp).1
  obtain ⟨s', hset, hr, ho⟩ :=
    Store.exists_setPointChildren hs hpoint (p.children.filter (· ≠ id))
  have hlinked : (t.objects.pointNamed? e.target).filter (·.children.contains id) = some p := by
    rw [hp]
    simpa using hid
  unfold unlinkExtension
  simp only [he, hlinked, hset]
  refine ⟨⟨{ t with objects := s' }.report (.extensionUnlinked id p.uniqueId), hr, rfl, rfl⟩, ?_⟩
  simpa using ho

/-! ## Unlinking a point -/

theorem unlinkPoint_of_none (hp : t.objects.point? id = none) : (t.unlinkPoint id).2 = t := by
  unfold unlinkPoint
  simp only [hp]

theorem unlinkPoint_of_no_children (hp : t.objects.point? id = some p) (hc : p.children = []) :
    (t.unlinkPoint id).2 = t := by
  unfold unlinkPoint
  simp only [hp, hc, List.isEmpty_nil, if_true]

theorem unlinkPoint_moves (hs : t.objects.Sound) (hp : t.objects.point? p.id = some p)
    (hc : p.children ≠ []) :
    Moves t p [] p.children .removed (t.unlinkPoint p.id).2 ∧
      ∀ u, (t.unlinkPoint p.id).2.objects.orphansOf? u =
        if p.uniqueId = u then some ((t.objects.orphansOf? u).getD [] ++ p.children)
        else t.objects.orphansOf? u := by
  have hr₁ := Store.relinked_addOrphans t.objects p.uniqueId p.children
  obtain ⟨s', hset, hr, ho⟩ := Store.exists_setPointChildren (hr₁.sound hs)
    (p := p) (by rw [Store.point?_congr (Store.slots_addOrphans _ _ _), hp]) []
  have he : p.children.isEmpty = false := by simpa using hc
  unfold unlinkPoint
  simp only [hp, he, hset, Bool.false_eq_true, if_false]
  refine ⟨⟨{ t with objects := s' }.report (.pointUnlinked p.uniqueId p.children.length),
    hr.of_slots_eq (by simp) (by simp) (by simp), rfl, rfl⟩, fun u => ?_⟩
  simp only [objects_record, objects_report]
  rw [Store.orphansOf?, ho, ← Store.orphansOf?, Store.orphansOf?_addOrphans]
  by_cases hu : p.uniqueId = u
  · simp [hu, hc]
  · simp [hu]

/-! ## Adding and dropping links -/

/-- Extensions that may come or go in one step: there are some, all live and none twice. -/
structure Linkable (t : Transaction) (ids : List ObjectId) : Prop where
  nonempty : ids ≠ []
  nodup : ids.Nodup
  live : ∀ x ∈ ids, ∃ e, t.objects.extension? x = some e

theorem linkable_singleton (he : t.objects.extension? id = some e) : t.Linkable [id] where
  nonempty := List.cons_ne_nil id []
  nodup := List.nodup_cons.2 ⟨List.not_mem_nil, List.nodup_nil⟩
  live := by simpa using ⟨e, he⟩

theorem linkable_eraseDups {ids : List ObjectId} (hne : ids ≠ [])
    (hlive : ∀ x ∈ ids, ∃ e, t.objects.extension? x = some e) : t.Linkable ids.eraseDups where
  nonempty := by
    cases ids with
    | nil => exact absurd rfl hne
    | cons id ids => simp [List.eraseDups_cons]
  nodup := nodup_eraseDups ids
  live x hx := hlive x (List.mem_eraseDups.1 hx)

/-- A step of linking: nothing is recorded, or a live point gets the children `ids` as well. -/
inductive Adds (t t' : Transaction) : Prop
  | parks (h : Parks t t')
  | moves {p : ExtensionPoint} {children ids : List ObjectId}
      (hp : t.objects.point? p.id = some p) (hids : t.Linkable ids)
      (hnew : ∀ x ∈ ids, x ∉ p.children)
      (hmem : ∀ x, x ∈ children ↔ x ∈ p.children ∨ x ∈ ids) (h : Moves t p children ids .added t')

/-- A step of unlinking: nothing is recorded, or a live point loses its children `ids`. -/
inductive Drops (t t' : Transaction) : Prop
  | parks (h : Parks t t')
  | moves {p : ExtensionPoint} {children ids : List ObjectId}
      (hp : t.objects.point? p.id = some p) (hids : t.Linkable ids)
      (hold : ∀ x ∈ ids, x ∈ p.children)
      (hmem : ∀ x, x ∈ children ↔ x ∈ p.children ∧ x ∉ ids)
      (h : Moves t p children ids .removed t')

theorem Adds.relinked {t t' : Transaction} (h : Adds t t') : Relinked t.objects t'.objects := by
  cases h with
  | parks h => exact h.relinked
  | moves _ _ _ _ h => exact h.regroups.relinked

theorem Drops.relinked {t t' : Transaction} (h : Drops t t') : Relinked t.objects t'.objects := by
  cases h with
  | parks h => exact h.relinked
  | moves _ _ _ _ h => exact h.regroups.relinked

theorem adds_linkExtension (hs : t.objects.Sound) (id : ObjectId) :
    Adds t (t.linkExtension id).2 := by
  cases he : t.objects.extension? id with
  | none =>
    unfold linkExtension
    simp only [he]
    exact .parks (.refl t)
  | some e =>
    cases hp : t.objects.pointNamed? e.target with
    | none => exact .parks (linkExtension_parks he hp).1
    | some p =>
      by_cases hid : id ∈ p.children
      · have hc : p.children.contains id = true := by simpa using hid
        unfold linkExtension
        simp only [he, hp, hc, if_true]
        exact .parks (.refl t)
      · exact .moves (hs.pointNamed?_eq_some_iff.1 hp).1 (linkable_singleton he)
          (by simpa using hid) (by simp) (linkExtension_moves hs he hp hid).1

theorem adds_linkPoint (hs : t.objects.Sound) (id : ObjectId)
    (hc : ∀ p, t.objects.point? id = some p → p.children = [] ∧
      ∀ bucket, t.objects.orphansOf? p.uniqueId = some bucket →
        bucket ≠ [] ∧ ∀ x ∈ bucket, ∃ e, t.objects.extension? x = some e) :
    Adds t (t.linkPoint id).2 := by
  cases hp : t.objects.point? id with
  | none =>
    unfold linkPoint
    simp only [hp]
    exact .parks (.refl t)
  | some p =>
    have hid := hs.point_id hp
    subst hid
    obtain ⟨hnil, hbucket⟩ := hc p hp
    cases hb : t.objects.orphansOf? p.uniqueId with
    | none =>
      rw [linkPoint_of_no_orphans hp hb]
      exact .parks (.refl t)
    | some bucket =>
      obtain ⟨hne, hlive⟩ := hbucket bucket hb
      exact .moves hp (linkable_eraseDups hne hlive) (by simp [hnil]) (by simp [hnil])
        (linkPoint_moves hs hp hb).1

theorem drops_unlinkExtension (hs : t.objects.Sound) (id : ObjectId) :
    Drops t (t.unlinkExtension id).2 := by
  cases he : t.objects.extension? id with
  | none =>
    rw [unlinkExtension_of_none he]
    exact .parks (.refl t)
  | some e =>
    by_cases hp : ∃ p, t.objects.pointNamed? e.target = some p ∧ id ∈ p.children
    · obtain ⟨p, hp, hid⟩ := hp
      exact .moves (hs.pointNamed?_eq_some_iff.1 hp).1 (linkable_singleton he)
        (by simpa using hid) (by simp) (unlinkExtension_moves hs he hp hid).1
    · exact .parks (unlinkExtension_parks he fun p hn hid => hp ⟨p, hn, hid⟩).1

theorem drops_unlinkPoint (hs : t.objects.Sound) (id : ObjectId)
    (hc : ∀ p, t.objects.point? id = some p → p.children.Nodup ∧
      ∀ x ∈ p.children, ∃ e, t.objects.extension? x = some e) :
    Drops t (t.unlinkPoint id).2 := by
  cases hp : t.objects.point? id with
  | none =>
    rw [unlinkPoint_of_none hp]
    exact .parks (.refl t)
  | some p =>
    have hid := hs.point_id hp
    subst hid
    by_cases he : p.children = []
    · rw [unlinkPoint_of_no_children hp he]
      exact .parks (.refl t)
    · obtain ⟨hnodup, hlive⟩ := hc p hp
      exact .moves hp ⟨he, hnodup, hlive⟩ (fun x hx => hx) (by simp)
        (unlinkPoint_moves hs hp he).1

/-! ## Steps for all of some ids -/

/-- What one step keeps while it takes the first id off a list, all steps keep. -/
theorem forEach_induction {f : Transaction → ObjectId → Option String × Transaction}
    {P : List ObjectId → Transaction → Prop}
    (hstep : ∀ id ids t, P (id :: ids) t → P ids (f t id).2) (ids : List ObjectId)
    (t : Transaction) (h : P ids t) : P [] (t.forEach f ids).2 := by
  induction ids generalizing t with
  | nil => exact h
  | cons id ids ih => exact ih _ (hstep id ids t h)

end Transaction

end PluginRegistry
