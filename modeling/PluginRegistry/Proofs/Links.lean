import Mathlib.Data.List.Sort
import PluginRegistry.Proofs.Steps

/-!
# Where extensions are linked

`Linked s pending dark` describes the links of a store in the middle of a write. The extensions
`pending` are not linked yet, or not any more; the points `dark` are treated as if they were not
there. All other extensions are at exactly one place, in the order of their ids: in the child list
of the live point they target, or, if there is none, in the orphan bucket of its name.

Each of the four steps moves one id out of or into one of the two lists.
-/

namespace PluginRegistry

/-! ## Sorted lists of ids -/

/-- `ids` are the ids with a property, in increasing order. -/
structure Lists (ids : List ObjectId) (P : ObjectId → Prop) : Prop where
  sorted : ids.Pairwise (·.index < ·.index)
  mem_iff : ∀ id, id ∈ ids ↔ P id

namespace Lists

variable {ids : List ObjectId} {P Q : ObjectId → Prop} {id : ObjectId}

theorem congr (h : Lists ids P) (hpq : ∀ id, Q id ↔ P id) : Lists ids Q :=
  ⟨h.sorted, fun id => (h.mem_iff id).trans (hpq id).symm⟩

theorem nil (h : ∀ id, ¬P id) : Lists [] P := ⟨.nil, fun id => by simpa using h id⟩

theorem append_one (h : Lists ids P) (hlt : ∀ x, P x → x.index < id.index) :
    Lists (ids ++ [id]) fun x => P x ∨ x = id where
  sorted := by
    rw [List.pairwise_append]
    refine ⟨h.sorted, List.pairwise_singleton _ _, fun x hx y hy => ?_⟩
    rw [List.mem_singleton] at hy
    subst hy
    exact hlt x ((h.mem_iff x).1 hx)
  mem_iff x := by simp [h.mem_iff]

theorem filter_ne (h : Lists ids P) (id : ObjectId) :
    Lists (ids.filter (· ≠ id)) fun x => P x ∧ x ≠ id where
  sorted := h.sorted.filter _
  mem_iff x := by simp [h.mem_iff]

theorem eq {ids' : List ObjectId} (h : Lists ids P) (h' : Lists ids' P) : ids = ids' := by
  have irrefl : Std.Irrefl fun a b : ObjectId => a.index < b.index := ⟨fun a => Nat.lt_irrefl _⟩
  have asymm : Std.Antisymm fun a b : ObjectId => a.index < b.index :=
    ⟨fun a b hab hba => absurd hab (by omega)⟩
  exact h.sorted.eq_of_mem_iff h'.sorted fun {id} => (h.mem_iff id).trans (h'.mem_iff id).symm

theorem nodup (h : Lists ids P) : ids.Nodup :=
  h.sorted.imp fun hlt he => absurd hlt (by rw [he]; omega)

end Lists

/-! ## The links of a store -/

namespace Store

/-- An extension that is live, targets the point named `u` and is not pending. -/
def Attached (s : Store) (pending : List ObjectId) (u : String) (id : ObjectId) : Prop :=
  id ∉ pending ∧ ∃ e, s.extension? id = some e ∧ e.target = u

/-- The extensions that target the point named `u` are where they belong. -/
structure LinkedAt (s : Store) (pending dark : List ObjectId) (u : String) : Prop where
  lit : ∀ p, s.pointNamed? u = some p → p.id ∉ dark →
    Lists p.children (s.Attached pending u) ∧ s.orphansOf? u = none
  unlit : ∀ p, s.pointNamed? u = some p → p.id ∈ dark → p.children = []
  parked : (∀ p, s.pointNamed? u = some p → p.id ∈ dark) →
    Lists ((s.orphansOf? u).getD []) (s.Attached pending u) ∧ s.orphansOf? u ≠ some []

/-- Every extension that is not pending is at its one place. -/
def Linked (s : Store) (pending dark : List ObjectId) : Prop := ∀ u, s.LinkedAt pending dark u

theorem linked_empty : empty.Linked [] [] := by
  have none_attached : ∀ u id, ¬empty.Attached [] u id := by
    rintro u id ⟨-, e, he, -⟩
    rw [extension?_eq_some_iff, object?_empty] at he
    cases he
  intro u
  have hp : empty.pointNamed? u = none := by simp [empty, pointNamed?]
  have ho : empty.orphansOf? u = none := by simp [empty, orphansOf?]
  refine ⟨by simp [hp], by simp [hp], fun _ => ?_⟩
  rw [ho]
  exact ⟨.nil (none_attached u), (Option.some_ne_none _).symm⟩

theorem LinkedAt.of_lit {s : Store} {pending dark : List ObjectId} {u : String}
    {p : ExtensionPoint} (hp : s.pointNamed? u = some p) (hlit : p.id ∉ dark)
    (hc : Lists p.children (s.Attached pending u)) (ho : s.orphansOf? u = none) :
    s.LinkedAt pending dark u where
  lit q hq _ := by
    rw [hp] at hq
    cases hq
    exact ⟨hc, ho⟩
  unlit q hq hd := by
    rw [hp] at hq
    cases hq
    exact absurd hd hlit
  parked hall := absurd (hall p hp) hlit

theorem LinkedAt.of_dark {s : Store} {pending dark : List ObjectId} {u : String}
    {p : ExtensionPoint} (hp : s.pointNamed? u = some p) (hdark : p.id ∈ dark)
    (hc : p.children = []) (hb : Lists ((s.orphansOf? u).getD []) (s.Attached pending u))
    (hne : s.orphansOf? u ≠ some []) : s.LinkedAt pending dark u where
  lit q hq hd := by
    rw [hp] at hq
    cases hq
    exact absurd hdark hd
  unlit q hq _ := by
    rw [hp] at hq
    cases hq
    exact hc
  parked _ := ⟨hb, hne⟩

theorem LinkedAt.congr {s s' : Store} {pending pending' dark dark' : List ObjectId} {u : String}
    (h : s.LinkedAt pending dark u) (hp : s'.pointNamed? u = s.pointNamed? u)
    (ho : s'.orphansOf? u = s.orphansOf? u)
    (ha : ∀ id, s'.Attached pending' u id ↔ s.Attached pending u id)
    (hd : ∀ p, s.pointNamed? u = some p → (p.id ∈ dark' ↔ p.id ∈ dark)) :
    s'.LinkedAt pending' dark' u where
  lit p hn hdark := by
    rw [hp] at hn
    obtain ⟨hc, hb⟩ := h.lit p hn fun hm => hdark ((hd p hn).2 hm)
    exact ⟨hc.congr ha, ho.trans hb⟩
  unlit p hn hdark := by
    rw [hp] at hn
    exact h.unlit p hn ((hd p hn).1 hdark)
  parked hall := by
    rw [hp] at hall
    obtain ⟨hb, hne⟩ := h.parked fun p hn => (hd p hn).1 (hall p hn)
    rw [ho]
    exact ⟨hb.congr ha, hne⟩

theorem attached_relinked {s s' : Store} (h : Relinked s s') (pending : List ObjectId) (u : String)
    (id : ObjectId) : s'.Attached pending u id ↔ s.Attached pending u id := by
  simp only [Attached, h.extension?_eq]

theorem Linked.nodup_children {s : Store} {pending dark : List ObjectId}
    (h : s.Linked pending dark) (hs : s.Sound) {id : ObjectId} {p : ExtensionPoint}
    (hp : s.point? id = some p) : p.children.Nodup := by
  have hid := hs.point_id hp
  subst hid
  have hn := hs.pointNamed?_eq_some_iff.2 ⟨hp, rfl⟩
  by_cases hd : p.id ∈ dark
  · rw [(h p.uniqueId).unlit p hn hd]
    exact List.nodup_nil
  · exact ((h p.uniqueId).lit p hn hd).1.nodup

theorem Linked.live_children {s : Store} {pending dark : List ObjectId}
    (h : s.Linked pending dark) (hs : s.Sound) {id : ObjectId} {p : ExtensionPoint}
    (hp : s.point? id = some p) : ∀ x ∈ p.children, ∃ e, s.extension? x = some e := by
  have hid := hs.point_id hp
  subst hid
  have hn := hs.pointNamed?_eq_some_iff.2 ⟨hp, rfl⟩
  intro x hx
  by_cases hd : p.id ∈ dark
  · rw [(h p.uniqueId).unlit p hn hd] at hx
    simp at hx
  · obtain ⟨-, e, he, -⟩ := (((h p.uniqueId).lit p hn hd).1.mem_iff x).1 hx
    exact ⟨e, he⟩

theorem Linked.live_bucket {s : Store} {pending dark : List ObjectId} (h : s.Linked pending dark)
    (hs : s.Sound) {p : ExtensionPoint} (hp : s.point? p.id = some p) (hdark : p.id ∈ dark)
    {bucket : List ObjectId} (hb : s.orphansOf? p.uniqueId = some bucket) :
    bucket ≠ [] ∧ ∀ x ∈ bucket, ∃ e, s.extension? x = some e := by
  have hn := hs.pointNamed?_eq_some_iff.2 ⟨hp, rfl⟩
  obtain ⟨hl, hne⟩ := (h p.uniqueId).parked fun q hq => by
    rw [hn] at hq
    cases hq
    exact hdark
  rw [hb] at hl hne
  refine ⟨fun e => hne (by rw [e]), fun x hx => ?_⟩
  obtain ⟨-, e, he, -⟩ := (hl.mem_iff x).1 hx
  exact ⟨e, he⟩

theorem attached_cons {s : Store} {pending : List ObjectId} {u : String} {id x : ObjectId} :
    s.Attached (id :: pending) u x ↔ s.Attached pending u x ∧ x ≠ id := by
  simp only [Attached, List.mem_cons, not_or]
  constructor
  · rintro ⟨⟨hne, hx⟩, he⟩
    exact ⟨⟨hx, he⟩, hne⟩
  · rintro ⟨⟨hx, he⟩, hne⟩
    exact ⟨⟨hne, hx⟩, he⟩

theorem attached_of_cons {s : Store} {pending : List ObjectId} {u : String} {id x : ObjectId}
    {e : Extension} (he : s.extension? id = some e) (hid : id ∉ pending) :
    s.Attached pending u x ↔ s.Attached (id :: pending) u x ∨ (x = id ∧ e.target = u) := by
  rw [attached_cons]
  by_cases hx : x = id
  · subst hx
    simp [Attached, he, hid]
  · simp [hx]

end Store

/-! ## The four steps -/

namespace Transaction

open Store (Sound Linked LinkedAt Attached)

variable {t : Transaction} {id : ObjectId} {pending dark : List ObjectId}

theorem linked_linkExtension (hs : t.objects.Sound) {e : Extension}
    (he : t.objects.extension? id = some e) (hid : id ∉ pending)
    (hlast : ∀ u x, t.objects.Attached (id :: pending) u x → x.index < id.index)
    (h : t.objects.Linked (id :: pending) []) :
    (t.linkExtension id).2.objects.Linked pending [] := by
  intro u
  have hadd : ∀ x, t.objects.Attached pending u x ↔
      t.objects.Attached (id :: pending) u x ∨ (x = id ∧ e.target = u) :=
    fun x => Store.attached_of_cons he hid
  cases hp : t.objects.pointNamed? e.target with
  | none =>
    obtain ⟨hparks, ho⟩ := linkExtension_parks he hp
    have hnamed := Store.pointNamed?_congr hparks.slots_eq hparks.pointIndex_eq
    have hatt := Store.attached_relinked hparks.relinked pending u
    by_cases hu : e.target = u
    · subst hu
      obtain ⟨hb, -⟩ := (h e.target).parked (by simp [hp])
      refine ⟨by simp [hnamed, hp], by simp [hnamed, hp], fun _ => ?_⟩
      rw [ho, if_pos rfl, Option.getD_some]
      refine ⟨(hb.append_one (hlast e.target)).congr fun x => ?_, by simp⟩
      rw [hatt, hadd]
      simp
    · refine (h u).congr (hnamed u) (by rw [ho, if_neg hu]) (fun x => ?_) (by simp)
      rw [hatt, hadd]
      simp [hu]
  | some p =>
    have hname := (hs.pointNamed?_eq_some_iff.1 hp).2
    obtain ⟨hc, hb⟩ := (h e.target).lit p hp (by simp)
    have hnew : id ∉ p.children := by
      rw [hc.mem_iff]
      rintro ⟨hpend, -⟩
      simp at hpend
    obtain ⟨hmoves, ho⟩ := linkExtension_moves hs he hp hnew
    have hr := hmoves.regroups
    have hatt := Store.attached_relinked hr.relinked pending u
    have ho' : ∀ v, (t.linkExtension id).2.objects.orphansOf? v = t.objects.orphansOf? v :=
      fun v => by rw [Store.orphansOf?, ho, Store.orphansOf?]
    by_cases hu : e.target = u
    · subst hu
      have hnamed := hr.pointNamed?_eq e.target
      rw [hname, if_pos rfl] at hnamed
      refine .of_lit hnamed (by simp) ?_ ((ho' _).trans hb)
      refine (hc.append_one (hlast e.target)).congr fun x => ?_
      rw [hatt, hadd]
      simp
    · have hnamed := hr.pointNamed?_eq u
      rw [hname, if_neg fun e' => hu e'.symm] at hnamed
      refine (h u).congr hnamed (ho' u) (fun x => ?_) (by simp)
      rw [hatt, hadd]
      simp [hu]

/-- Linking a point that was dark: it adopts what waited for it. -/
theorem linked_linkPoint (hs : t.objects.Sound) {p : ExtensionPoint}
    (hp : t.objects.point? p.id = some p) (hdark : p.id ∉ dark)
    (h : t.objects.Linked pending (p.id :: dark)) :
    (t.linkPoint p.id).2.objects.Linked pending dark := by
  have hpn := hs.pointNamed?_eq_some_iff.2 ⟨hp, rfl⟩
  have hempty := (h p.uniqueId).unlit p hpn (by simp)
  obtain ⟨hb, hne⟩ := (h p.uniqueId).parked fun q hq => by
    rw [hpn] at hq
    cases hq
    simp
  -- a point of another name is as dark as before
  have hother : ∀ u, u ≠ p.uniqueId → ∀ q, t.objects.pointNamed? u = some q →
      (q.id ∈ dark ↔ q.id ∈ p.id :: dark) := by
    intro u hu q hq
    have hqp := hs.id_ne_of_pointNamed? hp hq hu
    simp [hqp]
  intro u
  cases ho : t.objects.orphansOf? p.uniqueId with
  | none =>
    rw [linkPoint_of_no_orphans hp ho]
    by_cases hu : u = p.uniqueId
    · subst hu
      rw [ho] at hb
      refine .of_lit hpn hdark ?_ ho
      rw [hempty]
      exact hb
    · exact (h u).congr rfl rfl (fun _ => Iff.rfl) (hother u hu)
  | some bucket =>
    rw [ho, Option.getD_some] at hb
    obtain ⟨hmoves, ho'⟩ := linkPoint_moves hs hp ho
    rw [eraseDups_eq_self hb.nodup] at hmoves
    have hr := hmoves.regroups
    have hatt := Store.attached_relinked hr.relinked pending u
    have hnamed := hr.pointNamed?_eq u
    by_cases hu : u = p.uniqueId
    · subst hu
      rw [if_pos rfl] at hnamed
      refine .of_lit hnamed hdark (hb.congr hatt) ?_
      rw [ho', if_pos rfl]
    · rw [if_neg hu] at hnamed
      refine (h u).congr hnamed ?_ hatt (hother u hu)
      rw [ho', if_neg fun e => hu e.symm]

theorem attached_cons_of_target {e : Extension} (he : t.objects.extension? id = some e) {u : String}
    (hu : e.target ≠ u) (x : ObjectId) :
    t.objects.Attached (id :: pending) u x ↔ t.objects.Attached pending u x := by
  rw [Store.attached_cons, and_iff_left_iff_imp]
  rintro ⟨-, e', hx, hxu⟩ rfl
  rw [he] at hx
  cases hx
  exact hu hxu

theorem linked_unlinkExtension_child (hs : t.objects.Sound) (h : t.objects.Linked pending [])
    {e : Extension} (he : t.objects.extension? id = some e) {p : ExtensionPoint}
    (hp : t.objects.pointNamed? e.target = some p) (hmem : id ∈ p.children) :
    (t.unlinkExtension id).2.objects.Linked (id :: pending) [] := by
  have hname := (hs.pointNamed?_eq_some_iff.1 hp).2
  obtain ⟨hmoves, ho⟩ := unlinkExtension_moves hs he hp hmem
  have hr := hmoves.regroups
  have ho' : ∀ v, (t.unlinkExtension id).2.objects.orphansOf? v = t.objects.orphansOf? v :=
    fun v => by rw [Store.orphansOf?, ho, Store.orphansOf?]
  intro u
  have hatt := Store.attached_relinked hr.relinked (id :: pending) u
  have hnamed := hr.pointNamed?_eq u
  rw [hname] at hnamed
  by_cases hu : e.target = u
  · subst hu
    rw [if_pos rfl] at hnamed
    obtain ⟨hc, hb⟩ := (h e.target).lit p hp (by simp)
    refine .of_lit hnamed (by simp) ?_ ((ho' _).trans hb)
    exact (hc.filter_ne id).congr fun x => (hatt x).trans Store.attached_cons
  · rw [if_neg fun e' => hu e'.symm] at hnamed
    exact (h u).congr hnamed (ho' u)
      (fun x => (hatt x).trans (attached_cons_of_target he hu x)) (by simp)

theorem lists_removeOrphan {s : Store} {u : String} {P : ObjectId → Prop}
    (h : Lists (((s.orphansOf? u).getD []).filter (· ≠ id)) P) :
    Lists (((s.removeOrphan u id).2.orphansOf? u).getD []) P ∧
      (s.removeOrphan u id).2.orphansOf? u ≠ some [] := by
  rw [Store.orphansOf?_removeOrphan, if_pos rfl]
  cases hbucket : s.orphansOf? u with
  | none =>
    rw [hbucket, Option.getD_none] at h
    exact ⟨h, (Option.some_ne_none _).symm⟩
  | some bucket =>
    rw [hbucket, Option.getD_some] at h
    rw [Option.bind_some]
    split
    · rename_i hnil
      rw [hnil] at h
      exact ⟨h, (Option.some_ne_none _).symm⟩
    · rename_i hsome
      exact ⟨h, by simpa using hsome⟩

theorem linked_unlinkExtension_orphan (h : t.objects.Linked pending []) {e : Extension}
    (he : t.objects.extension? id = some e)
    (hno : ∀ p, t.objects.pointNamed? e.target = some p → id ∉ p.children) :
    (t.unlinkExtension id).2.objects.Linked (id :: pending) [] := by
  obtain ⟨hparks, hobjects⟩ := unlinkExtension_parks he hno
  have ho := fun u => congrArg (·.orphansOf? u) hobjects
  intro u
  have hnamed := Store.pointNamed?_congr hparks.slots_eq hparks.pointIndex_eq u
  have hatt := Store.attached_relinked hparks.relinked (id :: pending) u
  by_cases hu : e.target = u
  · subst hu
    refine ⟨fun q hq _ => ?_, by simp, fun hall => ?_⟩
    · rw [hnamed] at hq
      obtain ⟨hc, hb⟩ := (h e.target).lit q hq (by simp)
      constructor
      · refine hc.congr fun x => ?_
        rw [hatt, Store.attached_cons, and_iff_left_iff_imp]
        rintro hx rfl
        exact hno q hq ((hc.mem_iff x).2 hx)
      · rw [ho, Store.orphansOf?_removeOrphan, if_pos rfl, hb]
        rfl
    · rw [hnamed] at hall
      obtain ⟨hb, -⟩ := (h e.target).parked hall
      have hfilter := (hb.filter_ne id).congr fun x => (hatt x).trans Store.attached_cons
      rw [ho]
      exact lists_removeOrphan hfilter
  · refine (h u).congr hnamed ?_
      (fun x => (hatt x).trans (attached_cons_of_target he hu x)) (by simp)
    rw [ho, Store.orphansOf?_removeOrphan, if_neg hu]

theorem linked_unlinkExtension (hs : t.objects.Sound) (h : t.objects.Linked pending []) :
    (t.unlinkExtension id).2.objects.Linked (id :: pending) [] := by
  cases he : t.objects.extension? id with
  | none =>
    rw [unlinkExtension_of_none he]
    intro u
    refine (h u).congr rfl rfl (fun x => ?_) (by simp)
    rw [Store.attached_cons, and_iff_left_iff_imp]
    rintro ⟨-, e, hx, -⟩ rfl
    rw [he] at hx
    cases hx
  | some e =>
    by_cases hlinked : ∃ p, t.objects.pointNamed? e.target = some p ∧ id ∈ p.children
    · obtain ⟨p, hp, hmem⟩ := hlinked
      exact linked_unlinkExtension_child hs h he hp hmem
    · exact linked_unlinkExtension_orphan h he fun p hp hmem => hlinked ⟨p, hp, hmem⟩

/-- Unlinking a point: what was linked to it waits for the next of its name. -/
theorem linked_unlinkPoint (hs : t.objects.Sound) (h : t.objects.Linked pending dark) :
    (t.unlinkPoint id).2.objects.Linked pending (id :: dark) := by
  cases hp : t.objects.point? id with
  | none =>
    rw [unlinkPoint_of_none hp]
    intro u
    refine (h u).congr rfl rfl (fun _ => Iff.rfl) fun q hq => ?_
    have hne : q.id ≠ id := by
      rintro rfl
      rw [(hs.pointNamed?_eq_some_iff.1 hq).1] at hp
      cases hp
    simp [hne]
  | some p =>
    have hid := hs.point_id hp
    subst hid
    have hpn := hs.pointNamed?_eq_some_iff.2 ⟨hp, rfl⟩
    have hother : ∀ u, u ≠ p.uniqueId → ∀ q, t.objects.pointNamed? u = some q →
        (q.id ∈ p.id :: dark ↔ q.id ∈ dark) := by
      intro u hu q hq
      have hqp := hs.id_ne_of_pointNamed? hp hq hu
      simp [hqp]
    by_cases hc : p.children = []
    · rw [unlinkPoint_of_no_children hp hc]
      intro u
      by_cases hu : u = p.uniqueId
      · subst hu
        by_cases hd : p.id ∈ dark
        · obtain ⟨hb, hne⟩ := (h p.uniqueId).parked fun q hq => by
            rw [hpn] at hq
            cases hq
            exact hd
          exact .of_dark hpn List.mem_cons_self hc hb hne
        · obtain ⟨hl, hb⟩ := (h p.uniqueId).lit p hpn hd
          rw [hc] at hl
          apply LinkedAt.of_dark hpn List.mem_cons_self hc <;> rw [hb]
          · exact hl
          · exact (Option.some_ne_none _).symm
      · exact (h u).congr rfl rfl (fun _ => Iff.rfl) (hother u hu)
    · have hlit : p.id ∉ dark := fun hd => hc ((h p.uniqueId).unlit p hpn hd)
      obtain ⟨hl, hb⟩ := (h p.uniqueId).lit p hpn hlit
      obtain ⟨hmoves, ho⟩ := unlinkPoint_moves hs hp hc
      have hr := hmoves.regroups
      intro u
      have hatt := Store.attached_relinked hr.relinked pending u
      have hnamed := hr.pointNamed?_eq u
      by_cases hu : u = p.uniqueId
      · subst hu
        rw [if_pos rfl] at hnamed
        apply LinkedAt.of_dark hnamed List.mem_cons_self rfl <;> rw [ho, if_pos rfl, hb]
        · exact hl.congr hatt
        · simpa using hc
      · rw [if_neg hu] at hnamed
        refine (h u).congr hnamed ?_ hatt (hother u hu)
        rw [ho, if_neg fun e => hu e.symm]

end Transaction

end PluginRegistry
