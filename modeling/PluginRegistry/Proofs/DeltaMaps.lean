import Mathlib.Logic.Basic
import PluginRegistry.Delta

/-!
# Filing changes

What a change that is pushed to a `DeltaMap` adds to it. A map is `Tidy` if no change is in it
twice, no namespace has two entries, and no entry is empty; pushing changes that are new keeps it
so.
-/

namespace PluginRegistry.DeltaMap

/-- All changes in a map, a namespace after the other. -/
def all (m : DeltaMap) : List ExtensionDelta := m.entries.flatMap (·.deltas)

def Files (m : DeltaMap) (ns : String) (d : ExtensionDelta) : Prop :=
  ∃ entry ∈ m.entries, entry.ns = ns ∧ d ∈ entry.deltas

/-- Every change is filed once, in the one entry of its namespace. -/
structure Tidy (m : DeltaMap) : Prop where
  once : m.all.Nodup
  namespaces_nodup : m.namespaces.Nodup
  nonempty : ∀ entry ∈ m.entries, entry.deltas ≠ []

variable {m : DeltaMap} {ns : String} {d : ExtensionDelta}

theorem mem_all_iff : d ∈ m.all ↔ ∃ ns, m.Files ns d := by
  simp only [all, Files, List.mem_flatMap]
  constructor
  · rintro ⟨entry, he, hd⟩
    exact ⟨entry.ns, entry, he, rfl, hd⟩
  · rintro ⟨ns, entry, he, -, hd⟩
    exact ⟨entry, he, hd⟩

theorem tidy_empty : empty.Tidy where
  once := List.nodup_nil
  namespaces_nodup := List.nodup_nil
  nonempty := by simp [empty]

theorem not_files_empty : ¬empty.Files ns d := by simp [Files, empty]

/-! ## Snapshots -/

@[simp] theorem all_withSnapshot (m : DeltaMap) (id : SnapshotId) :
    (m.withSnapshot id).all = m.all := by simp [all, withSnapshot, List.flatMap_map]

@[simp] theorem namespaces_withSnapshot (m : DeltaMap) (id : SnapshotId) :
    (m.withSnapshot id).namespaces = m.namespaces := by
  simp [namespaces, withSnapshot, Function.comp_def]

theorem files_withSnapshot (id : SnapshotId) : (m.withSnapshot id).Files ns d ↔ m.Files ns d := by
  simp only [Files, withSnapshot, List.mem_map, exists_exists_and_eq_and]

theorem Tidy.withSnapshot (h : m.Tidy) (id : SnapshotId) : (m.withSnapshot id).Tidy where
  once := by rw [all_withSnapshot]; exact h.once
  namespaces_nodup := by rw [namespaces_withSnapshot]; exact h.namespaces_nodup
  nonempty := by
    intro entry he
    obtain ⟨entry', he', rfl⟩ := List.mem_map.1 he
    exact h.nonempty entry' he'

/-! ## Pushing a change -/

/-- The entry with one more change, if it is the one of the namespace. -/
def grow (ns : String) (d : ExtensionDelta) (entry : NamespaceDelta) : NamespaceDelta :=
  if entry.ns = ns then { entry with deltas := entry.deltas ++ [d] } else entry

theorem entries_push (m : DeltaMap) (ns : String) (d : ExtensionDelta) :
    (m.push ns d).entries = (m.touch ns).entries.map (grow ns d) := rfl

@[simp] theorem ns_grow (ns : String) (d : ExtensionDelta) (entry : NamespaceDelta) :
    (grow ns d entry).ns = entry.ns := by
  unfold grow
  split <;> rfl

theorem contains_iff : m.contains ns = true ↔ ns ∈ m.namespaces := by
  simp [contains, find?, namespaces]

theorem namespaces_touch (m : DeltaMap) (ns : String) :
    (m.touch ns).namespaces = if ns ∈ m.namespaces then m.namespaces else m.namespaces ++ [ns] := by
  unfold touch
  by_cases h : ns ∈ m.namespaces
  · rw [if_pos (contains_iff.2 h), if_pos h]
  · rw [if_neg fun hc => h (contains_iff.1 hc), if_neg h]
    simp [namespaces]

theorem all_touch (m : DeltaMap) (ns : String) : (m.touch ns).all = m.all := by
  unfold touch
  split
  · rfl
  · simp [all]

theorem mem_namespaces_touch (m : DeltaMap) (ns : String) : ns ∈ (m.touch ns).namespaces := by
  rw [namespaces_touch]
  split
  · assumption
  · simp

theorem nodup_namespaces_touch (h : m.namespaces.Nodup) (ns : String) :
    (m.touch ns).namespaces.Nodup := by
  rw [namespaces_touch]
  split
  · exact h
  · rename_i hnew
    refine List.nodup_append.2 ⟨h, List.nodup_cons.2 ⟨List.not_mem_nil, List.nodup_nil⟩, ?_⟩
    rintro a ha b hb rfl
    exact hnew (List.mem_singleton.1 hb ▸ ha)

theorem perm_flatMap_grow {entries : List NamespaceDelta} (h : (entries.map (·.ns)).Nodup)
    (hns : ns ∈ entries.map (·.ns)) :
    ((entries.map (grow ns d)).flatMap (·.deltas)).Perm (d :: entries.flatMap (·.deltas)) := by
  induction entries with
  | nil => simp at hns
  | cons entry entries ih =>
    obtain ⟨hfirst, hrest⟩ := List.nodup_cons.1 h
    rw [List.map_cons, List.flatMap_cons, List.flatMap_cons]
    by_cases he : entry.ns = ns
    · have hsame : entries.map (grow ns d) = entries := by
        refine List.map_congr_left (g := id) (fun other ho => ?_) |>.trans (List.map_id _)
        have hne : other.ns ≠ ns := fun e =>
          hfirst (List.mem_map.2 ⟨other, ho, e.trans he.symm⟩)
        exact if_neg hne
      rw [hsame, grow, if_pos he, List.append_assoc]
      exact List.perm_middle
    · have hns : ns ∈ entries.map (·.ns) := by
        rcases List.mem_cons.1 hns with e | hmem
        · exact absurd e.symm he
        · exact hmem
      rw [grow, if_neg he]
      exact ((ih hrest hns).append_left entry.deltas).trans List.perm_middle

theorem all_push (h : m.namespaces.Nodup) (ns : String) (d : ExtensionDelta) :
    (m.push ns d).all.Perm (d :: m.all) := by
  rw [← all_touch m ns]
  exact perm_flatMap_grow (nodup_namespaces_touch h ns) (mem_namespaces_touch m ns)

theorem files_push {ns' : String} {d' : ExtensionDelta} :
    (m.push ns d).Files ns' d' ↔ m.Files ns' d' ∨ (ns' = ns ∧ d' = d) := by
  have touched : (m.touch ns).Files ns' d' ↔ m.Files ns' d' := by
    unfold touch
    split
    · rfl
    · simp [Files, or_and_right, exists_or]
  rw [← touched]
  simp only [Files, entries_push, List.mem_map, exists_exists_and_eq_and, ns_grow]
  constructor
  · rintro ⟨entry, he, rfl, hd⟩
    unfold grow at hd
    split at hd
    · rename_i hns
      rcases List.mem_append.1 hd with hd | hd
      · exact .inl ⟨entry, he, rfl, hd⟩
      · exact .inr ⟨hns, List.mem_singleton.1 hd⟩
    · exact .inl ⟨entry, he, rfl, hd⟩
  · rintro (⟨entry, he, rfl, hd⟩ | ⟨rfl, rfl⟩)
    · refine ⟨entry, he, rfl, ?_⟩
      unfold grow
      split
      · exact List.mem_append_left _ hd
      · exact hd
    · obtain ⟨entry, he, hns⟩ := List.mem_map.1 (mem_namespaces_touch m ns')
      exact ⟨entry, he, hns, by simp [grow, hns]⟩

theorem Tidy.push (h : m.Tidy) (hd : d ∉ m.all) (ns : String) : (m.push ns d).Tidy where
  once := (all_push h.namespaces_nodup ns d).nodup_iff.2 (List.nodup_cons.2 ⟨hd, h.once⟩)
  namespaces_nodup := by
    have hsame : (m.push ns d).namespaces = (m.touch ns).namespaces := by
      simp [namespaces, entries_push, Function.comp_def]
    rw [hsame]
    exact nodup_namespaces_touch h.namespaces_nodup ns
  nonempty := by
    intro entry he
    rw [entries_push] at he
    obtain ⟨old, hold, rfl⟩ := List.mem_map.1 he
    unfold grow
    split
    · simp
    · rename_i hne
      unfold touch at hold
      split at hold
      · exact h.nonempty old hold
      · rcases List.mem_append.1 hold with hold | hold
        · exact h.nonempty old hold
        · rw [List.mem_singleton] at hold
          subst hold
          exact absurd rfl hne

/-! ## Pushing several changes -/

/-- Changes at one point, pushed one after the other. -/
def pushAll (m : DeltaMap) (ns : String) (point : ObjectId) (kind : DeltaKind)
    (extensions : List ObjectId) : DeltaMap :=
  extensions.foldl (fun m extension => m.push ns { extension, point, kind }) m

theorem files_pushAll {point : ObjectId} {kind : DeltaKind} {extensions : List ObjectId}
    {ns' : String} : (m.pushAll ns point kind extensions).Files ns' d ↔
      m.Files ns' d ∨ (ns' = ns ∧ d.extension ∈ extensions ∧ d.point = point ∧ d.kind = kind) := by
  induction extensions generalizing m with
  | nil => simp [pushAll]
  | cons x xs ih =>
    rw [pushAll, List.foldl_cons, ← pushAll, ih, files_push, List.mem_cons, or_assoc]
    have he : d = { extension := x, point, kind } ↔
        d.extension = x ∧ d.point = point ∧ d.kind = kind := by
      cases d
      simp
    rw [he]
    refine or_congr_right ?_
    rw [← and_or_left, ← or_and_right]

theorem Tidy.pushAll (h : m.Tidy) {point : ObjectId} {kind : DeltaKind}
    {extensions : List ObjectId} (hnodup : extensions.Nodup)
    (hnew : ∀ extension ∈ extensions, { extension, point, kind } ∉ m.all) (ns : String) :
    (m.pushAll ns point kind extensions).Tidy := by
  induction extensions generalizing m with
  | nil => exact h
  | cons x xs ih =>
    obtain ⟨hx, hxs⟩ := List.nodup_cons.1 hnodup
    refine ih (h.push (hnew x List.mem_cons_self) ns) hxs fun y hy => ?_
    rw [(all_push h.namespaces_nodup ns _).mem_iff, List.mem_cons, not_or]
    refine ⟨fun e => ?_, hnew y (List.mem_cons_of_mem _ hy)⟩
    cases e
    exact hx hy

end PluginRegistry.DeltaMap
