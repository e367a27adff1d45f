import Mathlib.Algebra.GroupWithZero.Nat
import Mathlib.Data.Finset.Card
import Mathlib.Data.List.Flatten
import Mathlib.Data.List.Nodup
import PluginRegistry.Proofs.Changes

/-!
# The sum of all changes

For a store to which writes lead that were all listened to, the changes in the delta maps of the
writes add up to what is linked now: in each namespace, what was added less what was removed is the
number of extensions linked to its points.
-/

namespace PluginRegistry

/-! ## Counting changes -/

namespace DeltaMap

/-- The changes of one kind in a namespace. -/
def filed (m : DeltaMap) (ns : String) (kind : DeltaKind) : List ExtensionDelta :=
  ((m.entries.filter (·.ns = ns)).flatMap (·.deltas)).filter (·.kind = kind)

theorem mem_filed_iff {m : DeltaMap} {ns : String} {kind : DeltaKind} {d : ExtensionDelta} :
    d ∈ m.filed ns kind ↔ m.Files ns d ∧ d.kind = kind := by
  simp [filed, Files, and_assoc]

theorem Tidy.nodup_filed {m : DeltaMap} (h : m.Tidy) (ns : String) (kind : DeltaKind) :
    (m.filed ns kind).Nodup :=
  (h.once.sublist (List.filter_sublist.flatMap _)).filter _

end DeltaMap

/-! ## Counting links -/

namespace Store

def pointsOf (s : Store) (ns : String) : List ExtensionPoint :=
  (s.objects.filterMap RegistryObject.point?).filter (·.ns = ns)

/-- The links of the points of a namespace, each an extension and its point. -/
def linksOf (s : Store) (ns : String) : List (ObjectId × ObjectId) :=
  (s.pointsOf ns).flatMap fun p => p.children.map fun x => (x, p.id)

def linkedCount (s : Store) (ns : String) : Nat :=
  ((s.pointsOf ns).map (·.children.length)).sum

theorem length_linksOf (s : Store) (ns : String) : (s.linksOf ns).length = s.linkedCount ns := by
  simp [linksOf, linkedCount, List.length_flatMap]

theorem mem_pointsOf_iff {s : Store} (hs : s.Sound) (hn : s.nextId ≤ UInt32.size) {ns : String}
    {p : ExtensionPoint} : p ∈ s.pointsOf ns ↔ s.point? p.id = some p ∧ p.ns = ns := by
  have hobject : p ∈ s.objects.filterMap RegistryObject.point? ↔ .point p ∈ s.objects := by
    rw [List.mem_filterMap]
    constructor
    · rintro ⟨o, ho, hp⟩
      cases o with
      | point q =>
        cases hp
        exact ho
      | extension e => cases hp
      | element e => cases hp
    · exact fun h => ⟨_, h, rfl⟩
  rw [pointsOf, List.mem_filter, hobject, mem_objects_iff hs hn, point?_eq_some_iff,
    decide_eq_true_eq]
  rfl

theorem mem_linksOf_iff {s : Store} (hs : s.Sound) (hn : s.nextId ≤ UInt32.size) {ns : String}
    {x q : ObjectId} : (x, q) ∈ s.linksOf ns ↔ s.LinkIn ns x q := by
  simp only [linksOf, List.mem_flatMap, List.mem_map, Prod.mk.injEq, mem_pointsOf_iff hs hn]
  constructor
  · rintro ⟨p, ⟨hp, hns⟩, x', hx, rfl, rfl⟩
    exact ⟨p, hp, hns, hx⟩
  · rintro ⟨p, hp, hns, hx⟩
    have hid := hs.point_id hp
    subst hid
    exact ⟨p, ⟨hp, hns⟩, x, hx, rfl, rfl⟩

theorem nodup_linksOf {s : Store} (h : s.Settled) (hn : s.nextId ≤ UInt32.size) (ns : String) :
    (s.linksOf ns).Nodup := by
  refine List.nodup_flatMap.2 ⟨fun p hp => ?_, ?_⟩
  · have hchildren :=
      h.linked.nodup_children h.sound ((mem_pointsOf_iff h.sound hn).1 hp).1
    exact hchildren.map fun x y hxy => (Prod.mk.inj hxy).1
  · have hids : (s.pointsOf ns).Pairwise (·.id ≠ ·.id) := by
      refine List.Pairwise.filter _ (List.pairwise_filterMap.2 ?_)
      refine (nodup_ids h.sound hn).imp fun {a b} hne p hp q hq => ?_
      cases a <;> cases hp
      cases b <;> cases hq
      exact hne
    refine hids.imp fun {p q} hne => ?_
    rintro ⟨x, u⟩ hx hy
    obtain ⟨_, -, hp⟩ := List.mem_map.1 hx
    obtain ⟨_, -, hq⟩ := List.mem_map.1 hy
    exact hne ((Prod.mk.inj hp).2.trans (Prod.mk.inj hq).2.symm)

end Store

/-! ## One write -/

theorem length_add_length {α : Type} [DecidableEq α] {before after new gone : List α}
    (hbefore : before.Nodup) (hafter : after.Nodup) (hnew : new.Nodup) (hgone : gone.Nodup)
    (mem_new : ∀ x, x ∈ new ↔ x ∈ after ∧ x ∉ before)
    (mem_gone : ∀ x, x ∈ gone ↔ x ∈ before ∧ x ∉ after) :
    new.length + before.length = gone.length + after.length := by
  have e : new.toFinset = after.toFinset \ before.toFinset := by
    ext x
    simp [mem_new]
  have e' : gone.toFinset = before.toFinset \ after.toFinset := by
    ext x
    simp [mem_gone]
  rw [← List.toFinset_card_of_nodup hbefore, ← List.toFinset_card_of_nodup hafter,
    ← List.toFinset_card_of_nodup hnew, ← List.toFinset_card_of_nodup hgone, e, e',
    Finset.card_sdiff_add_card, Finset.card_sdiff_add_card, Finset.union_comm]

theorem Write.length_filed {r : Registry} (h : r.objects.Settled) (w : Write)
    (hn : (w.perform r).objects.nextId ≤ UInt32.size) (hl : r.listeners ≠ []) (ns : String) :
    ((w.deltas r).filed ns .added).length + r.objects.linkedCount ns =
      ((w.deltas r).filed ns .removed).length + (w.perform r).objects.linkedCount ns := by
  obtain ⟨hexact, hns⟩ := w.exact_deltas h hn hl
  have h' := w.settled_perform h hn
  have hn' := (w.nextId_le_perform r).trans hn
  -- as pairs, the changes of one kind are still distinct
  have hpairs : ∀ kind, (((w.deltas r).filed ns kind).map fun d => (d.extension, d.point)).Nodup :=
    fun kind => (hexact.tidy.nodup_filed ns kind).map_on fun a ha b hb e => by
      have hkind := (DeltaMap.mem_filed_iff.1 ha).2.trans (DeltaMap.mem_filed_iff.1 hb).2.symm
      obtain ⟨he, hp⟩ := Prod.mk.inj e
      cases a
      cases b
      cases he
      cases hp
      cases hkind
      rfl
  have hmem : ∀ kind x q,
      (x, q) ∈ ((w.deltas r).filed ns kind).map (fun d => (d.extension, d.point)) ↔
        r.objects.Differs (w.perform r).objects ns ⟨x, q, kind⟩ := by
    intro kind x q
    rw [← hexact.files_iff, List.mem_map]
    constructor
    · rintro ⟨⟨x', q', kind'⟩, hd, e⟩
      obtain ⟨hfiles, rfl⟩ := DeltaMap.mem_filed_iff.1 hd
      cases e
      exact hfiles
    · exact fun hfiles => ⟨_, DeltaMap.mem_filed_iff.2 ⟨hfiles, rfl⟩, rfl⟩
  have hcount := length_add_length (Store.nodup_linksOf h hn' ns) (Store.nodup_linksOf h' hn ns)
    (hpairs .added) (hpairs .removed) (fun ⟨x, q⟩ => ?_) (fun ⟨x, q⟩ => ?_)
  · simpa only [List.length_map, Store.length_linksOf] using hcount
  · rw [hmem, Store.mem_linksOf_iff h'.sound hn, Store.mem_linksOf_iff h.sound hn']
    refine and_congr_right fun hnew => not_congr ⟨fun hold => ?_, Store.LinkIn.hasLink⟩
    obtain ⟨ns', hold⟩ := Store.hasLink_iff.1 hold
    rwa [hns hold hnew] at hold
  · rw [hmem, Store.mem_linksOf_iff h'.sound hn, Store.mem_linksOf_iff h.sound hn']
    refine and_congr_right fun hold => not_congr ⟨fun hnew => ?_, Store.LinkIn.hasLink⟩
    obtain ⟨ns', hnew⟩ := Store.hasLink_iff.1 hnew
    rwa [← hns hold hnew] at hnew

/-! ## All writes -/

/-- Writes that were all listened to lead to the store, and these are their delta maps in order. -/
inductive Store.Observed : Store → List DeltaMap → Prop
  | empty : Observed .empty []
  | write (r : Registry) (w : Write) (maps : List DeltaMap) (h : Observed r.objects maps)
      (hl : r.listeners ≠ []) : Observed (w.perform r).objects (maps ++ [w.deltas r])

namespace Store.Observed

variable {s : Store} {maps : List DeltaMap}

theorem reachable (h : s.Observed maps) : s.Reachable := by
  induction h with
  | empty => exact .empty
  | write r w _ _ _ ih => exact .write r w ih

theorem sum_filed (h : s.Observed maps) (hn : s.nextId ≤ UInt32.size) (ns : String) :
    (maps.map fun m => (m.filed ns .added).length).sum =
      (maps.map fun m => (m.filed ns .removed).length).sum + s.linkedCount ns := by
  induction h with
  | empty => rfl
  | write r w maps hobserved hl ih =>
    have hn' := (w.nextId_le_perform r).trans hn
    have hwrite := w.length_filed (hobserved.reachable.settled hn') hn hl ns
    have ih := ih hn'
    simp only [List.map_append, List.sum_append, List.map_cons, List.map_nil, List.sum_cons,
      List.sum_nil]
    omega

end Store.Observed

/-- The delta map of a write on a reachable store is the difference of the links before and after
if someone listens, and empty if nobody does; it is what the event of the write carries, which waits
behind the others if there is a worker for it. Over writes that were all listened to the changes add
up to the links there are. -/
theorem Write.deltas_of_reachable :
    (∀ (r : Registry) (w : Write), r.objects.Reachable →
      (w.perform r).objects.nextId ≤ UInt32.size →
        (r.listeners ≠ [] → (w.deltas r).Exact r.objects (w.perform r).objects) ∧
        (r.listeners = [] → w.deltas r = .empty) ∧
        (r.dispatcher.stopped = false → (w.perform r).dispatcher.queue =
          if (w.deltas r).isEmpty then r.dispatcher.queue
          else if r.dispatcher.refusal?.isSome then []
          else r.dispatcher.queue ++ [{ listeners := r.listeners, deltas := w.deltas r }])) ∧
    ∀ (s : Store) (maps : List DeltaMap), s.Observed maps → s.nextId ≤ UInt32.size → ∀ ns,
      (maps.map fun m => (m.filed ns .added).length).sum =
        (maps.map fun m => (m.filed ns .removed).length).sum + s.linkedCount ns := by
  refine ⟨fun r w h hn => ?_, fun s maps h hn ns => h.sum_filed hn ns⟩
  have hsettled := h.settled ((w.nextId_le_perform r).trans hn)
  have hnone := w.deltas_of_no_listeners hsettled hn
  exact ⟨fun hl => (w.exact_deltas hsettled hn hl).1, hnone, fun hd => queue_perform hd hnone⟩

theorem Write.deltas_of_sample :
    (Registry.samplePoint.deltas Registry.sampleWaiting).Exact Registry.sampleWaiting.objects
      Registry.sampleLinked.objects ∧
    ∃ maps, Registry.sampleLinked.objects.Observed maps ∧
      (maps.map fun m => (m.filed "ui" .added).length).sum =
        (maps.map fun m => (m.filed "ui" .removed).length).sum + 1 := by
  have hn : Registry.sampleLinked.objects.nextId ≤ UInt32.size := by decide +kernel
  have hl : Registry.sampleWaiting.listeners ≠ [] := by
    rw [← List.isEmpty_eq_false_iff]
    decide +kernel
  have hwaiting : Registry.sampleWaiting.objects.Observed _ :=
    .write Registry.sample _ [] .empty (by simp [Registry.sample])
  have hlinked : Registry.sampleLinked.objects.Observed _ :=
    .write Registry.sampleWaiting Registry.samplePoint _ hwaiting hl
  have hcount : Registry.sampleLinked.objects.linkedCount "ui" = 1 := by decide +kernel
  refine ⟨(deltas_of_reachable.1 _ Registry.samplePoint hwaiting.reachable hn).1 hl, _, hlinked, ?_⟩
  rw [deltas_of_reachable.2 _ _ hlinked hn "ui", hcount]

end PluginRegistry
