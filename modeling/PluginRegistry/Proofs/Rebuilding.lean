import PluginRegistry.Proofs.Marks
import PluginRegistry.Proofs.Ownership
import PluginRegistry.Store.Parts

/-!
# Building a store from its parts

The parts of a whole store build that store again, with the mark taken away (`ofParts_toParts`).
The slots come back because every object is in the slot of its id and slots that became free are
below the next id, the index because no two points have one unique id, and the contributions
because no two have one contributor.
-/

namespace PluginRegistry.Store

/-! ## Slots -/

theorem slots_eq_of_object?_eq {s s' : Store} (hn : s.nextId ≤ UInt32.size)
    (hnext : s'.nextId = s.nextId) (h : ∀ id, s'.object? id = s.object? id) :
    s'.slots = s.slots := by
  refine Array.ext hnext fun i hi' hi => ?_
  have hlt : i < UInt32.size := Nat.lt_of_lt_of_le hi hn
  have hobject := h (.ofIndex i)
  simpa only [object?, ObjectId.index_ofIndex hlt, Array.getElem?_eq_getElem hi,
    Array.getElem?_eq_getElem hi', Option.join_some] using hobject

theorem object?_foldl_put (objects : List RegistryObject) (s : Store)
    (hids : objects.Pairwise (·.id ≠ ·.id)) (hlt : ∀ o ∈ objects, o.id.index < s.nextId) :
    let filled := objects.foldl (fun (s : Store) o => s.put o false) s
    filled.nextId = s.nextId ∧ (∀ o ∈ objects, filled.object? o.id = some o) ∧
      ∀ id, (∀ o ∈ objects, o.id ≠ id) → filled.object? id = s.object? id := by
  induction objects generalizing s with
  | nil => exact ⟨rfl, by simp, fun _ _ => rfl⟩
  | cons o objects ih =>
    obtain ⟨hfirst, hrest⟩ := List.pairwise_cons.1 hids
    have hnext : (s.put o false).nextId = s.nextId := by
      have := hlt o List.mem_cons_self
      rw [nextId_put]
      omega
    obtain ⟨hn, hthere, hother⟩ := ih (s.put o false) hrest fun o' ho' => by
      rw [hnext]
      exact hlt o' (List.mem_cons_of_mem _ ho')
    refine ⟨hn.trans hnext, fun o' ho' => ?_, fun id hid => ?_⟩
    · rcases List.mem_cons.1 ho' with rfl | ho'
      · rw [List.foldl_cons, hother o'.id fun o ho => (hfirst o ho).symm, object?_put, if_pos rfl]
      · exact hthere o' ho'
    · rw [List.foldl_cons, hother id fun o' ho' => hid o' (List.mem_cons_of_mem _ ho'),
        object?_put, if_neg (hid o List.mem_cons_self).symm]

def blank (n : Nat) : Store := { empty with slots := Array.replicate n none }

theorem nextId_blank (n : Nat) : (blank n).nextId = n := by simp [blank, nextId]

theorem object?_blank (n : Nat) (id : ObjectId) : (blank n).object? id = none := by
  simp only [blank, object?, Array.getElem?_replicate]
  split <;> rfl

theorem slots_refilled {s : Store} (hs : s.Sound) (hn : s.nextId ≤ UInt32.size) :
    (s.objects.foldl (fun (s : Store) o => s.put o false) (blank s.nextId)).slots = s.slots := by
  have hmem := fun o => mem_objects_iff hs hn (o := o)
  obtain ⟨hnext, hthere, hother⟩ := object?_foldl_put s.objects (blank s.nextId) (nodup_ids hs hn)
    fun o ho => by
      rw [nextId_blank]
      exact index_lt_of_object? ((hmem o).1 ho)
  refine slots_eq_of_object?_eq hn (hnext.trans (nextId_blank _)) fun id => ?_
  cases ho : s.object? id with
  | some o =>
    have hid := hs.id_eq ho
    subst hid
    exact hthere o ((hmem o).2 ho)
  | none =>
    rw [hother id fun o hmem' hid => ?_, object?_blank]
    rw [hmem, hid, ho] at hmem'
    cases hmem'

/-! ## The index -/

def enterName (index : Std.ExtTreeMap String ObjectId) :
    RegistryObject → Std.ExtTreeMap String ObjectId
  | .point p => index.insert p.uniqueId p.id
  | _ => index

theorem indexOf_eq (objects : List RegistryObject) :
    indexOf objects = objects.foldl enterName ∅ := by
  unfold indexOf
  refine congrArg (fun f => objects.foldl f ∅) (funext fun index => funext fun o => ?_)
  cases o <;> rfl

theorem getElem?_foldl_index_of_not_mem (objects : List RegistryObject)
    (index : Std.ExtTreeMap String ObjectId) {u : String}
    (h : ∀ p, .point p ∈ objects → p.uniqueId ≠ u) :
    (objects.foldl enterName index)[u]? = index[u]? := by
  induction objects generalizing index with
  | nil => rfl
  | cons o objects ih =>
    rw [List.foldl_cons, ih _ fun p hp => h p (List.mem_cons_of_mem _ hp)]
    cases o with
    | extension e => rfl
    | element e => rfl
    | point p =>
      have hne := h p List.mem_cons_self
      simp [enterName, Std.ExtTreeMap.getElem?_insert, hne]

theorem getElem?_foldl_index_of_mem (objects : List RegistryObject)
    (index : Std.ExtTreeMap String ObjectId) {p : ExtensionPoint} (hp : .point p ∈ objects)
    (hone : ∀ q, .point q ∈ objects → q.uniqueId = p.uniqueId → q = p) :
    (objects.foldl enterName index)[p.uniqueId]? = some p.id := by
  induction objects generalizing index with
  | nil => simp at hp
  | cons o objects ih =>
    rw [List.foldl_cons]
    by_cases hlater : .point p ∈ objects
    · exact ih _ hlater fun q hq => hone q (List.mem_cons_of_mem _ hq)
    · rcases List.mem_cons.1 hp with rfl | hmem
      · rw [getElem?_foldl_index_of_not_mem objects _ fun q hq hu => hlater ?_]
        · simp [enterName]
        · exact hone q (List.mem_cons_of_mem _ hq) hu ▸ hq
      · exact absurd hmem hlater

theorem indexOf_objects {s : Store} (hs : s.Sound) (hn : s.nextId ≤ UInt32.size) :
    indexOf s.objects = s.pointIndex := by
  have hmem : ∀ p, .point p ∈ s.objects ↔ s.point? p.id = some p := fun p => by
    rw [mem_objects_iff hs hn, point?_eq_some_iff]
    rfl
  refine Std.ExtTreeMap.ext_getElem? fun u => ?_
  rw [indexOf_eq]
  cases hu : s.pointIndex[u]? with
  | none =>
    rw [getElem?_foldl_index_of_not_mem]
    · simp
    · intro p hp hname
      rw [hs.index_iff.2 ⟨p, (hmem p).1 hp, hname⟩] at hu
      cases hu
  | some id =>
    obtain ⟨p, hp, rfl⟩ := hs.index_iff.1 hu
    have hid := hs.point_id hp
    subst hid
    refine getElem?_foldl_index_of_mem s.objects ∅ ((hmem p).2 hp) fun q hq hname => ?_
    have hq := (hmem q).1 hq
    rw [hs.point_unique hq hp hname, hp] at hq
    exact (Option.some.inj hq).symm

/-! ## Contributions and orphans -/

theorem foldl_fileContribution (known new : List Contribution)
    (h : ((known ++ new).map (·.contributor)).Nodup) :
    new.foldl fileContribution known = known ++ new := by
  induction new generalizing known with
  | nil => simp
  | cons c new ih =>
    have hnew : known.any (·.contributor = c.contributor) = false := by
      rw [List.any_eq_false]
      intro k hk he
      rw [List.map_append, List.nodup_append] at h
      exact h.2.2 _ (List.mem_map_of_mem hk) _ (List.mem_map_of_mem List.mem_cons_self)
        (of_decide_eq_true he)
    have hfile : fileContribution known c = known ++ [c] := by
      unfold fileContribution
      rw [if_neg (by simp [hnew])]
    rw [List.foldl_cons, hfile, ih _ (by simpa using h), List.append_assoc]
    rfl

theorem ofList_toList {β : Type} (m : Std.ExtTreeMap String β) :
    Std.ExtTreeMap.ofList m.toList = m := by
  refine Std.ExtTreeMap.ext_getElem? fun u => ?_
  cases hu : m[u]? with
  | none =>
    refine Std.ExtTreeMap.getElem?_ofList_of_contains_eq_false ?_
    simpa [Std.ExtTreeMap.map_fst_toList_eq_keys] using hu
  | some b =>
    exact Std.ExtTreeMap.getElem?_ofList_of_mem (k := u) Std.ReflOrd.compare_self
      Std.ExtTreeMap.distinct_keys_toList
      (Std.ExtTreeMap.mem_toList_iff_getElem?_eq_some.2 hu)

/-! ## The whole store -/

theorem ofParts_eq (parts : Parts) : ofParts parts =
    let filled :=
      parts.objects.foldl (fun (s : Store) o => s.put o false) (blank parts.nextId.toNat)
    { slots := filled.slots
      pointIndex := indexOf filled.objects
      contributions := parts.contributions.foldl fileContribution []
      orphans := Std.ExtTreeMap.ofList parts.orphans
      dirty := false } := rfl

/-- The parts of a whole store build it again, unmarked. -/
theorem ofParts_toParts {s : Store} (h : s.Whole) (hn : s.nextId < UInt32.size) :
    ofParts s.toParts = s.mark false := by
  have hsize : s.toParts.nextId.toNat = s.nextId := UInt32.toNat_ofNat_of_lt' hn
  have hslots := slots_refilled h.settled.sound hn.le
  have hobjects : (s.objects.foldl (fun (s : Store) o => s.put o false) (blank s.nextId)).objects =
      s.objects := by rw [objects, hslots, objects]
  have hparts : s.toParts.objects = s.objects ∧ s.toParts.contributions = s.contributions ∧
      s.toParts.orphans = s.orphans.toList := ⟨rfl, rfl, rfl⟩
  rw [ofParts_eq]
  simp only [hsize, hparts, hslots, hobjects, indexOf_objects h.settled.sound hn.le,
    ofList_toList, foldl_fileContribution [] s.contributions h.listed.contributors_nodup,
    List.nil_append]
  rfl

end PluginRegistry.Store
