import PluginRegistry.Proofs.Writes

/-!
# Where every extension is

In a store to which writes lead, the extensions that target a name are all at one place, in the
order of their ids: linked to the live point of that name if there is one, in the orphan bucket of
the name if there is none (`placed_of_reachable`).
-/

namespace PluginRegistry

namespace Store

/-- The live extensions that target the point named `u`, in the order of their ids. -/
def targeting (s : Store) (u : String) : List ObjectId :=
  ((List.range s.nextId).map ObjectId.ofIndex).filter fun id =>
    (s.extension? id).any (·.target = u)

theorem lists_targeting {s : Store} (hn : s.nextId ≤ UInt32.size) (u : String) :
    Lists (s.targeting u) (s.Attached [] u) where
  sorted := by
    refine List.Pairwise.filter _ (List.pairwise_map.2 ?_)
    refine List.Pairwise.imp_of_mem (fun {a b} ha hb hlt => ?_) List.pairwise_lt_range
    rw [List.mem_range] at ha hb
    rwa [ObjectId.index_ofIndex (by omega), ObjectId.index_ofIndex (by omega)]
  mem_iff id := by
    simp only [targeting, List.mem_filter, List.mem_map, List.mem_range, Option.any_eq_true,
      decide_eq_true_eq, Attached, List.not_mem_nil, not_false_eq_true, true_and,
      and_iff_right_iff_imp]
    rintro ⟨e, he, -⟩
    exact ⟨id.index, index_lt_of_object? (extension?_eq_some_iff.1 he), id.ofIndex_index⟩

/-- The live point of a name is unique and has the extensions that target it as its children; the
extensions that target a name without a point wait in its bucket. -/
theorem placed_of_reachable {s : Store} (h : s.Reachable) (hn : s.nextId ≤ UInt32.size)
    (u : String) :
    (∀ id p, s.point? id = some p → p.uniqueId = u →
      (∀ other q, s.point? other = some q → q.uniqueId = u → other = id ∧ q = p) ∧
        s.pointNamed? u = some p ∧ p.children = s.targeting u ∧ s.orphansOf? u = none) ∧
    ((∀ id p, s.point? id = some p → p.uniqueId ≠ u) →
      s.pointNamed? u = none ∧
        s.orphansOf? u = if s.targeting u = [] then none else some (s.targeting u)) := by
  obtain ⟨hs, -, hl⟩ := h.settled hn
  have htargeting := lists_targeting hn u
  refine ⟨fun id p hp hu => ?_, fun hnone => ?_⟩
  · have hid := hs.point_id hp
    subst hid
    have hnamed := hs.pointNamed?_eq_some_iff.2 ⟨hp, hu⟩
    obtain ⟨hc, hb⟩ := (hl u).lit p hnamed (by simp)
    refine ⟨fun other q hq hqu => ?_, hnamed, hc.eq htargeting, hb⟩
    have hother := hs.point_unique hq hp (hqu.trans hu.symm)
    rw [hother, hp] at hq
    exact ⟨hother, (Option.some.inj hq).symm⟩
  · have hnamed := hs.pointNamed?_eq_none_iff.2 hnone
    obtain ⟨hb, hne⟩ := (hl u).parked (by simp [hnamed])
    refine ⟨hnamed, ?_⟩
    have heq := hb.eq htargeting
    cases hbucket : s.orphansOf? u with
    | none =>
      rw [hbucket, Option.getD_none] at heq
      rw [if_pos heq.symm]
    | some bucket =>
      rw [hbucket, Option.getD_some] at heq
      rw [hbucket] at hne
      rw [← heq, if_neg fun e => hne (by rw [e])]

theorem placed_sample :
    (Registry.sampleWaiting.objects.Reachable ∧
      Registry.sampleWaiting.objects.orphansOf? "ui.menu" = some [⟨0⟩]) ∧
    (Registry.sampleLinked.objects.Reachable ∧
      (Registry.sampleLinked.objects.pointNamed? "ui.menu").map (·.children) = some [⟨0⟩] ∧
      Registry.sampleLinked.objects.orphansOf? "ui.menu" = none) := by
  have hwaiting : Registry.sampleWaiting.objects.Reachable := .write _ _ .empty
  have hlinked : Registry.sampleLinked.objects.Reachable := .write _ _ hwaiting
  have hn : Registry.sampleWaiting.objects.nextId ≤ UInt32.size := by decide +kernel
  have hn' : Registry.sampleLinked.objects.nextId ≤ UInt32.size := by decide +kernel
  have hnone : Registry.sampleWaiting.objects.pointNamed? "ui.menu" = none := by decide +kernel
  have hpoint : (Registry.sampleLinked.objects.point? ⟨1⟩).any (·.uniqueId = "ui.menu") := by
    decide +kernel
  obtain ⟨p, hp, hu⟩ := (Option.any_eq_true _ _).1 hpoint
  refine ⟨⟨hwaiting, ?_⟩, hlinked, ?_⟩
  · obtain ⟨-, hb⟩ := (placed_of_reachable hwaiting hn "ui.menu").2
      ((hwaiting.settled hn).sound.pointNamed?_eq_none_iff.1 hnone)
    rw [hb]
    decide +kernel
  · obtain ⟨-, hnamed, hc, hb⟩ :=
      (placed_of_reachable hlinked hn' "ui.menu").1 ⟨1⟩ p hp (by simpa using hu)
    refine ⟨?_, hb⟩
    rw [hnamed, Option.map_some, hc]
    decide +kernel

end Store

end PluginRegistry
