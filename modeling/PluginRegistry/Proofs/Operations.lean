import PluginRegistry.Proofs.Decodings
import PluginRegistry.Proofs.Rebuilding

/-!
# The operations of a store and its mark

An operation marks the store if it changes something, with two exceptions: an id that is given out
leaves no mark, and a search in a bucket without extensions drops the bucket and leaves none. So a
store that is not marked after any number of operations is as it was, but for the ids that were
given out and the empty buckets that were searched (`Store.toParts_of_unmarked`); both do happen
(`Store.changed_unmarked`). Empty buckets come from a cache only.
-/

namespace PluginRegistry

namespace Store

/-- An operation of a store, with its arguments. -/
inductive Operation
  | allocate
  | add (object : RegistryObject) (indexed : Bool)
  | remove (ids : List ObjectId)
  | addContribution (contribution : Contribution)
  | removeContribution (contributor : ContributorId)
  | addOrphan (point : String) (extension : ObjectId)
  | addOrphans (point : String) (extensions : List ObjectId)
  | removeOrphans (point : String)
  | removeOrphan (point : String) (extension : ObjectId)
  deriving DecidableEq

def perform (s : Store) : Operation → Store
  | .allocate => s.allocate.2
  | .add object indexed => s.put object indexed
  | .remove ids => (s.remove ids).2
  | .addContribution contribution => s.addContribution contribution
  | .removeContribution contributor => (s.removeContribution contributor).2
  | .addOrphan point extension => s.addOrphans point [extension]
  | .addOrphans point extensions => s.addOrphans point extensions
  | .removeOrphans point => ((s.takeOrphans point).map (·.2)).getD s
  | .removeOrphan point extension => (s.removeOrphan point extension).2

def performAll (s : Store) (operations : List Operation) : Store := operations.foldl perform s

/-- Whether an operation searches the bucket of a point. -/
def Operation.searches (point : String) : Operation → Bool
  | .removeOrphan searched _ => searched = point
  | _ => false

/-- What operations do to a store without marking it: they give ids out, and they drop the empty
ones of the buckets they search. -/
def unmarkedBy (s : Store) (operations : List Operation) : Store :=
  { s with
    slots := s.slots ++ Array.replicate (operations.count .allocate) none
    orphans := s.orphans.filter fun point bucket =>
      !(bucket.isEmpty && operations.any (·.searches point)) }

variable {s : Store} {operation : Operation} {operations : List Operation}

/-! ## One operation -/

theorem orphansOf?_unmarkedBy (point : String) : (s.unmarkedBy operations).orphansOf? point =
    (s.orphansOf? point).filter fun bucket =>
      !(bucket.isEmpty && operations.any (·.searches point)) :=
  Std.ExtTreeMap.getElem?_filter'

theorem eq_of_orphansOf?_eq {t : Store} (hslots : t.slots = s.slots)
    (hindex : t.pointIndex = s.pointIndex) (hcontributions : t.contributions = s.contributions)
    (hdirty : t.dirty = s.dirty) (horphans : ∀ point, t.orphansOf? point = s.orphansOf? point) :
    t = s := by
  have heq : t.orphans = s.orphans := Std.ExtTreeMap.ext_getElem? horphans
  cases s
  cases t
  simp only at hslots hindex hcontributions hdirty heq
  rw [hslots, hindex, hcontributions, hdirty, heq]

/-- An operation that neither gives an id out nor searches a bucket leaves everything it does not
mark. -/
theorem unmarkedBy_singleton (hid : operation ≠ .allocate)
    (hsearch : ∀ point, operation.searches point = false) : s.unmarkedBy [operation] = s := by
  refine eq_of_orphansOf?_eq ?_ rfl rfl rfl fun point => ?_
  · rw [unmarkedBy, List.count_singleton, if_neg (by simpa using hid)]
    exact Array.append_empty
  · rw [orphansOf?_unmarkedBy]
    cases s.orphansOf? point with
    | none => rfl
    | some bucket => simp [Option.filter, hsearch point]

theorem unmarkedBy_allocate : s.unmarkedBy [.allocate] = s.allocate.2 := by
  refine eq_of_orphansOf?_eq ?_ rfl rfl rfl fun point => ?_
  · exact Array.push_eq_append.symm
  · rw [orphansOf?_unmarkedBy]
    change _ = s.orphansOf? point
    cases s.orphansOf? point with
    | none => rfl
    | some bucket => simp [Option.filter, Operation.searches]

theorem removeOne_cases (s : Store) (id : ObjectId) :
    (s.removeOne id).2 = s ∨ (s.removeOne id).2.dirty = true := by
  unfold removeOne
  split
  · exact .inl rfl
  · exact .inr rfl

theorem remove_cases (s : Store) (ids : List ObjectId) :
    (s.remove ids).2 = s ∨ (s.remove ids).2.dirty = true := by
  induction ids generalizing s with
  | nil => exact .inl rfl
  | cons id ids ih =>
    change ((s.removeOne id).2.remove ids).2 = s ∨ ((s.removeOne id).2.remove ids).2.dirty = true
    rcases ih (s.removeOne id).2 with heq | hmarked
    · rw [heq]
      exact removeOne_cases s id
    · exact .inr hmarked

theorem addOrphans_cases (s : Store) (point : String) (extensions : List ObjectId) :
    s.addOrphans point extensions = s ∨ (s.addOrphans point extensions).dirty = true := by
  unfold addOrphans
  split
  · exact .inl rfl
  · exact .inr rfl

theorem removeContribution_cases (s : Store) (contributor : ContributorId) :
    (s.removeContribution contributor).2 = s ∨
      (s.removeContribution contributor).2.dirty = true := by
  unfold removeContribution
  split
  · exact .inl rfl
  · exact .inr rfl

theorem takeOrphans_cases (s : Store) (point : String) :
    s.perform (.removeOrphans point) = s ∨ (s.perform (.removeOrphans point)).dirty = true := by
  change ((s.takeOrphans point).map (·.2)).getD s = s ∨
    (((s.takeOrphans point).map (·.2)).getD s).dirty = true
  unfold takeOrphans
  cases s.orphansOf? point with
  | none => exact .inl rfl
  | some bucket => exact .inr rfl

theorem dirty_removeOrphan (s : Store) (point : String) (extension : ObjectId) :
    (s.removeOrphan point extension).2.dirty = (s.dirty ||
      (s.orphansOf? point).any fun bucket => bucket.filter (· ≠ extension) ≠ bucket) := by
  unfold removeOrphan
  cases s.orphansOf? point with
  | none => exact (Bool.or_false _).symm
  | some bucket =>
    have hlength : (bucket.filter (· ≠ extension)).length ≠ bucket.length ↔
        bucket.filter (· ≠ extension) ≠ bucket :=
      ⟨fun hne heq => hne (congrArg List.length heq), fun hne heq =>
        hne ((List.filter_sublist).eq_of_length heq)⟩
    simp only [Option.any_some, hlength]

theorem removeOrphan_cases (s : Store) (point : String) (extension : ObjectId) :
    (s.removeOrphan point extension).2 = s.unmarkedBy [.removeOrphan point extension] ∨
      (s.removeOrphan point extension).2.dirty = true := by
  rw [dirty_removeOrphan]
  cases hfound : (s.orphansOf? point).any fun bucket => bucket.filter (· ≠ extension) ≠ bucket with
  | true => exact .inr (Bool.or_true _)
  | false =>
    have hrest : ∀ bucket, s.orphansOf? point = some bucket →
        bucket.filter (· ≠ extension) = bucket := fun bucket hbucket => by
      rw [hbucket, Option.any_some, decide_eq_false_iff_not, not_not] at hfound
      exact hfound
    have hdirty : (s.removeOrphan point extension).2.dirty = s.dirty := by
      rw [dirty_removeOrphan, hfound, Bool.or_false]
    refine .inl (eq_of_orphansOf?_eq (slots_removeOrphan s point extension)
      (pointIndex_removeOrphan s point extension) (contributions_removeOrphan s point extension)
      hdirty fun other => ?_)
    rw [orphansOf?_removeOrphan, orphansOf?_unmarkedBy]
    by_cases hother : point = other
    · subst hother
      cases hbucket : s.orphansOf? point with
      | none => rw [if_pos rfl]; rfl
      | some bucket =>
        rw [if_pos rfl, Option.bind_some, hrest bucket hbucket]
        by_cases hempty : bucket = [] <;> simp [Option.filter, Operation.searches, hempty]
    · rw [if_neg hother]
      cases s.orphansOf? other with
      | none => rfl
      | some bucket => simp [Option.filter, Operation.searches, hother]

theorem perform_cases (s : Store) (operation : Operation) :
    s.perform operation = s.unmarkedBy [operation] ∨ (s.perform operation).dirty = true := by
  cases operation with
  | allocate => exact .inl unmarkedBy_allocate.symm
  | add object indexed => exact .inr rfl
  | remove ids =>
    rw [unmarkedBy_singleton (by simp) fun _ => rfl]
    exact remove_cases s ids
  | addContribution contribution => exact .inr rfl
  | removeContribution contributor =>
    rw [unmarkedBy_singleton (by simp) fun _ => rfl]
    exact removeContribution_cases s contributor
  | addOrphan point extension =>
    rw [unmarkedBy_singleton (by simp) fun _ => rfl]
    exact addOrphans_cases s point [extension]
  | addOrphans point extensions =>
    rw [unmarkedBy_singleton (by simp) fun _ => rfl]
    exact addOrphans_cases s point extensions
  | removeOrphans point =>
    rw [unmarkedBy_singleton (by simp) fun _ => rfl]
    exact takeOrphans_cases s point
  | removeOrphan point extension => exact removeOrphan_cases s point extension

/-! ## One after the other -/

theorem dirty_perform (h : s.dirty = true) (operation : Operation) :
    (s.perform operation).dirty = true := by
  rcases perform_cases s operation with heq | hmarked
  · rw [heq]
    exact h
  · exact hmarked

theorem dirty_performAll (h : s.dirty = true) (operations : List Operation) :
    (s.performAll operations).dirty = true := by
  induction operations generalizing s with
  | nil => exact h
  | cons operation operations ih => exact ih (dirty_perform h operation)

theorem unmarkedBy_nil : s.unmarkedBy [] = s := by
  refine eq_of_orphansOf?_eq Array.append_empty rfl rfl rfl fun point => ?_
  rw [orphansOf?_unmarkedBy]
  cases s.orphansOf? point with
  | none => rfl
  | some bucket => simp [Option.filter]

theorem unmarkedBy_cons :
    (s.unmarkedBy [operation]).unmarkedBy operations = s.unmarkedBy (operation :: operations) := by
  refine eq_of_orphansOf?_eq ?_ rfl rfl rfl fun point => ?_
  · change s.slots ++ _ ++ _ = s.slots ++ _
    rw [Array.append_assoc, Array.replicate_append_replicate, ← List.count_append]
    rfl
  · simp only [orphansOf?_unmarkedBy, Option.filter_filter]
    refine congrArg (Option.filter · _) (funext fun bucket => ?_)
    cases bucket.isEmpty <;> cases operation.searches point <;> simp_all

/-- After operations that leave no mark, the store is what they make of it without marking it. -/
theorem performAll_of_unmarked (h : (s.performAll operations).dirty = false) :
    s.performAll operations = s.unmarkedBy operations := by
  induction operations generalizing s with
  | nil => exact unmarkedBy_nil.symm
  | cons operation operations ih =>
    rcases perform_cases s operation with heq | hmarked
    · rw [← unmarkedBy_cons, ← heq]
      exact ih h
    · exact absurd (dirty_performAll hmarked operations) (by rw [Bool.not_eq_true]; exact h)

theorem toParts_unmarkedBy : (s.unmarkedBy operations).toParts =
    { s.toParts with
      nextId := s.toParts.nextId + (operations.count .allocate).toUInt32
      orphans := s.toParts.orphans.filter fun bucket =>
        !(bucket.2.isEmpty && operations.any (·.searches bucket.1)) } := by
  have hnext : (s.unmarkedBy operations).slots.size.toUInt32 =
      s.slots.size.toUInt32 + (operations.count .allocate).toUInt32 := by
    change (s.slots ++ Array.replicate _ none).size.toUInt32 = _
    rw [Array.size_append, Array.size_replicate]
    exact UInt32.ofNat_add _ _
  have hobjects : (s.unmarkedBy operations).objects = s.objects := by
    change (s.slots ++ Array.replicate _ none).toList.filterMap id = s.slots.toList.filterMap id
    rw [Array.toList_append, Array.toList_replicate, List.filterMap_append,
      List.filterMap_replicate_of_none rfl, List.append_nil]
  unfold toParts
  rw [hnext, hobjects]
  simp only [unmarkedBy, Std.ExtTreeMap.toList_filter]

theorem keeps_bucket (hkeeps : ∀ point extension, .removeOrphan point extension ∈ operations →
    s.orphansOf? point ≠ some []) {bucket : String × List ObjectId}
    (hbucket : bucket ∈ s.toParts.orphans) :
    (!(bucket.2.isEmpty && operations.any (·.searches bucket.1))) = true := by
  rw [Bool.not_eq_true', Bool.and_eq_false_iff, or_iff_not_imp_left, Bool.not_eq_false]
  intro hempty
  rw [List.any_eq_false]
  intro operation hoperation hsearch
  cases operation with
  | removeOrphan point extension =>
    have hpoint : point = bucket.1 := of_decide_eq_true hsearch
    refine hkeeps point extension hoperation ?_
    rw [hpoint, ← List.isEmpty_iff.1 hempty]
    exact Std.ExtTreeMap.mem_toList_iff_getElem?_eq_some.1 hbucket
  | _ => cases hsearch

/-- If a store is not marked after operations, then it has the parts it had, except for the next id,
which counts the ids that were given out, and for the buckets without extensions that were searched,
which are gone. If no id was given out and no such bucket was searched, it has the same parts. -/
theorem toParts_of_unmarked (s : Store) (operations : List Operation)
    (h : (s.performAll operations).dirty = false) :
    (s.performAll operations).toParts =
      { s.toParts with
        nextId := s.toParts.nextId + (operations.count .allocate).toUInt32
        orphans := s.toParts.orphans.filter fun bucket =>
          !(bucket.2.isEmpty && operations.any (·.searches bucket.1)) } ∧
    (.allocate ∉ operations → (∀ point extension, .removeOrphan point extension ∈ operations →
      s.orphansOf? point ≠ some []) → (s.performAll operations).toParts = s.toParts) := by
  rw [performAll_of_unmarked h, toParts_unmarkedBy]
  refine ⟨rfl, fun hid hkeeps => ?_⟩
  rw [List.count_eq_zero.2 hid, List.filter_eq_self.2 fun bucket => keeps_bucket hkeeps]
  exact congrArg (Parts.mk · _ _ _) (UInt32.add_zero _)

/-- A store in which one bucket is without extensions. -/
def sampleEmptied : Parts where
  nextId := 1
  objects := [.extension ⟨⟨0⟩, none, "", "ui.bar", "tools", ⟨2⟩, []⟩]
  contributions := [⟨⟨2⟩, "tools", [], [⟨0⟩]⟩]
  orphans := [("ui.bar", [⟨0⟩]), ("ui.menu", [])]

/-- Operations that find nothing to change. -/
def sampleIdle : List Operation :=
  [.remove [⟨1⟩], .removeOrphan "ui.bar" ⟨1⟩, .removeOrphans "ui.foo", .removeContribution ⟨1⟩,
    .addOrphans "ui.bar" []]

theorem unmarked_sampleEmptied :
    ((ofParts sampleEmptied).performAll sampleIdle).toParts = sampleEmptied ∧
    ((ofParts sampleEmptied).performAll
      (.allocate :: .removeOrphan "ui.menu" ⟨1⟩ :: sampleIdle)).toParts =
        { sampleEmptied with nextId := 2, orphans := [("ui.bar", [⟨0⟩])] } := by
  have hparts : (ofParts sampleEmptied).toParts = sampleEmptied := by decide +kernel
  have hidle := (toParts_of_unmarked (ofParts sampleEmptied) sampleIdle (by decide +kernel)).2
    (by decide) fun point extension hsearch => by
      have hpoint : point = "ui.bar" := by
        simp only [sampleIdle, List.mem_cons, List.not_mem_nil, reduceCtorEq, false_or, or_false,
          Operation.removeOrphan.injEq] at hsearch
        exact hsearch.1
      rw [hpoint]
      decide +kernel
  have hunmarked := (toParts_of_unmarked (ofParts sampleEmptied)
    (.allocate :: .removeOrphan "ui.menu" ⟨1⟩ :: sampleIdle) (by decide +kernel)).1
  refine ⟨hidle.trans hparts, hunmarked.trans ?_⟩
  rw [hparts]
  decide +kernel

/-- Both ways a store changes without a mark: a bucket of a decoded store goes, and an id is given
out. -/
theorem changed_unmarked :
    (Cache.Image.encode sampleEmptied 7).decode 7 = .ok sampleEmptied ∧
    (ofParts sampleEmptied).dirty = false ∧
    ((ofParts sampleEmptied).performAll [.removeOrphan "ui.menu" ⟨0⟩]).dirty = false ∧
    ((ofParts sampleEmptied).performAll [.removeOrphan "ui.menu" ⟨0⟩]).toParts ≠
      (ofParts sampleEmptied).toParts ∧
    (empty.performAll [.allocate]).dirty = false ∧
    (empty.performAll [.allocate]).toParts ≠ empty.toParts := by
  refine ⟨by decide +kernel, by decide +kernel, by decide +kernel, by decide +kernel,
    by decide +kernel, by decide +kernel⟩

end Store

end PluginRegistry
