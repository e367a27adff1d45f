import PluginRegistry.Proofs.Operations
import PluginRegistry.Proofs.Tenures

/-!
# Contributions that are merged

A contributor that is recorded again has its points and extensions added to what it had. On the flat
arrays that is a merge in two places: the later points go between the earlier points and the earlier
extensions (`Contribution.mergeRaw?`). What is stored after any number of records is the
concatenation of both lists, its flat array is the merge of the flat arrays, it is accepted again,
and no half of it is read from outside (`Store.merged_of_recorded`).
-/

namespace PluginRegistry

namespace Contribution

variable {c later : Contribution}

def count (c : Contribution) : Nat := c.points.length + c.extensions.length

/-- The flat array for two contributions of one contributor: both halves of both arrays are read,
and the points and the extensions are laid out anew. `none` if a half is not inside its array. -/
def mergeRaw? (array later : List UInt32) : Option (List UInt32) := do
  let points := (← pointsIn? array) ++ (← pointsIn? later)
  let extensions := (← extensionsIn? array) ++ (← extensionsIn? later)
  pure (points.length.toUInt32 :: extensions.length.toUInt32 ::
    (points.map (·.val) ++ extensions.map (·.val)))

/-! ## Arrays that are accepted -/

theorem ofRaw?_eq_some_iff {contributor : ContributorId} {ns : String} {array : List UInt32} :
    ofRaw? contributor ns array = some c ↔
      ∃ (p e : UInt32) (points extensions : List UInt32), array = p :: e :: (points ++ extensions) ∧
        points.length = p.toNat ∧ extensions.length = e.toNat ∧
        c = ⟨contributor, ns, points.map .mk, extensions.map .mk⟩ := by
  constructor
  · intro h
    match array with
    | [] => simp [ofRaw?] at h
    | [_] => simp [ofRaw?] at h
    | p :: e :: ids =>
      simp only [ofRaw?] at h
      split at h
      · rename_i hlength
        refine ⟨p, e, ids.take p.toNat, ids.drop p.toNat, by rw [List.take_append_drop], ?_, ?_,
          (Option.some.inj h).symm⟩
        · rw [List.length_take]
          omega
        · rw [List.length_drop]
          omega
      · cases h
  · rintro ⟨p, e, points, extensions, rfl, hpoints, hextensions, rfl⟩
    rw [ofRaw?, if_pos (by rw [List.length_append, hpoints, hextensions]), ← hpoints,
      List.take_left, List.drop_left]

/-! ## One merge -/

theorem accepted_raw (h : c.count < UInt32.size) : ofRaw? c.contributor c.ns c.raw = some c := by
  unfold count at h
  exact ofRaw?_raw c (by omega) (by omega)

theorem count_merge (c later : Contribution) : (c.merge later).count = c.count + later.count := by
  simp only [count, merge, List.length_append]
  omega

theorem mergeRaw?_raw (hc : c.count < UInt32.size) (hlater : later.count < UInt32.size) :
    mergeRaw? c.raw later.raw = some (c.merge later).raw := by
  obtain ⟨-, hpoints, hextensions⟩ := counted_of_ofRaw? (accepted_raw hc)
  obtain ⟨-, hpoints', hextensions'⟩ := counted_of_ofRaw? (accepted_raw hlater)
  rw [mergeRaw?, hpoints, hpoints', hextensions, hextensions']
  rfl

/-! ## One after the other -/

/-- The first of some contributions with the others merged into it. -/
def mergeAll? : List Contribution → Option Contribution
  | [] => none
  | first :: later => some (later.foldl merge first)

theorem mergeAll?_append (earlier later : List Contribution) :
    mergeAll? ((mergeAll? earlier).toList ++ later) = mergeAll? (earlier ++ later) := by
  cases earlier with
  | nil => rfl
  | cons first rest => simp [mergeAll?]

theorem foldl_merge (first : Contribution) (later : List Contribution) :
    later.foldl merge first =
      { first with
        points := (first :: later).flatMap (·.points)
        extensions := (first :: later).flatMap (·.extensions) } := by
  induction later generalizing first with
  | nil => simp
  | cons next later ih =>
    rw [List.foldl_cons, ih]
    simp [merge]

theorem count_foldl_merge (first : Contribution) (later : List Contribution) :
    (later.foldl merge first).count = ((first :: later).map count).sum := by
  induction later generalizing first with
  | nil => simp
  | cons next later ih =>
    rw [List.foldl_cons, ih]
    simp only [List.map_cons, List.sum_cons, count_merge]
    omega

theorem foldlM_mergeRaw? (first : Contribution) (later : List Contribution)
    (h : ((first :: later).map count).sum < UInt32.size) :
    (later.map raw).foldlM mergeRaw? first.raw = some (later.foldl merge first).raw := by
  induction later generalizing first with
  | nil => rfl
  | cons next later ih =>
    simp only [List.map_cons, List.sum_cons] at h
    rw [List.map_cons, List.foldlM_cons, mergeRaw?_raw (by omega) (by omega), List.foldl_cons]
    refine ih (first.merge next) ?_
    simp only [List.map_cons, List.sum_cons, count_merge]
    omega

end Contribution

namespace Store

variable {s : Store} {operation : Operation}

/-- The contribution that an operation records for a contributor. -/
def Operation.recorded? (c : ContributorId) : Operation → Option Contribution
  | .addContribution k => if k.contributor = c then some k else none
  | _ => none

theorem contributions_perform (hadd : ∀ k, operation ≠ .addContribution k)
    (hremove : ∀ c, operation ≠ .removeContribution c) :
    (s.perform operation).contributions = s.contributions := by
  cases operation with
  | allocate => rfl
  | add object indexed => rfl
  | remove ids => exact (frame_remove s ids).2.1
  | addContribution k => exact absurd rfl (hadd k)
  | removeContribution c => exact absurd rfl (hremove c)
  | addOrphan point extension => exact contributions_addOrphans s point [extension]
  | addOrphans point extensions => exact contributions_addOrphans s point extensions
  | removeOrphans point =>
    change (((s.takeOrphans point).map (·.2)).getD s).contributions = s.contributions
    unfold takeOrphans
    cases s.orphansOf? point with
    | none => rfl
    | some bucket => rfl
  | removeOrphan point extension => exact contributions_removeOrphan s point extension

/-- What is recorded for a contributor is merged into what is there; nothing else but a removal
changes it. -/
theorem contribution?_perform (c : ContributorId) (h : operation ≠ .removeContribution c) :
    (s.perform operation).contribution? c =
      Contribution.mergeAll? ((s.contribution? c).toList ++ (operation.recorded? c).toList) := by
  have hkept : ∀ known : Option Contribution, Contribution.mergeAll? (known.toList ++ []) = known :=
    fun known => by cases known <;> rfl
  cases operation with
  | addContribution k =>
    change (s.addContribution k).contribution? c = _
    rw [contribution?_addContribution, Operation.recorded?]
    split
    · cases s.contribution? c <;> rfl
    · exact (hkept _).symm
  | removeContribution other =>
    change (s.removeContribution other).2.contribution? c = _
    rw [contribution?_removeContribution, if_neg (by rintro rfl; exact h rfl)]
    exact (hkept _).symm
  | _ =>
    rw [contribution?, contributions_perform (by simp) (by simp)]
    exact (hkept _).symm

theorem contribution?_performAll (s : Store) (c : ContributorId) (operations : List Operation)
    (h : .removeContribution c ∉ operations) :
    (s.performAll operations).contribution? c = Contribution.mergeAll?
      ((s.contribution? c).toList ++ operations.filterMap (Operation.recorded? c)) := by
  induction operations generalizing s with
  | nil => cases hc : s.contribution? c <;> simp [performAll, hc, Contribution.mergeAll?]
  | cons operation operations ih =>
    rw [List.mem_cons, not_or] at h
    obtain ⟨hfirst, hrest⟩ := h
    change ((s.perform operation).performAll operations).contribution? c = _
    rw [ih (s.perform operation) hrest, contribution?_perform c (Ne.symm hfirst),
      Contribution.mergeAll?_append, List.append_assoc]
    cases hrecorded : operation.recorded? c with
    | none => rw [List.filterMap_cons_none hrecorded]; rfl
    | some k => rw [List.filterMap_cons_some hrecorded]; rfl

/-- First: an array is accepted as a contribution exactly if it is two counts with as many points
and extensions behind, and then both halves are read from inside. Second: a store that has nothing
of a contributor, in which contributions of that contributor are recorded with fewer than 2^32 ids
in all, among any other operations but a removal, has these one after the other, points and
extensions apart, under the namespace of the first. Its flat array is the merge of the recorded
ones, and it is accepted again. -/
theorem merged_of_recorded :
    (∀ contributor ns array c, Contribution.ofRaw? contributor ns array = some c ↔
      ∃ (p e : UInt32) (points extensions : List UInt32), array = p :: e :: (points ++ extensions) ∧
        points.length = p.toNat ∧ extensions.length = e.toNat ∧
        c = ⟨contributor, ns, points.map .mk, extensions.map .mk⟩) ∧
    (∀ contributor ns array c, Contribution.ofRaw? contributor ns array = some c →
      c.raw = array ∧ Contribution.pointsIn? array = some c.points ∧
        Contribution.extensionsIn? array = some c.extensions) ∧
    ∀ (s : Store) (c : ContributorId) (operations : List Operation) (first : Contribution)
      (later : List Contribution),
      s.contribution? c = none → .removeContribution c ∉ operations →
      operations.filterMap (Operation.recorded? c) = first :: later →
      ((first :: later).map Contribution.count).sum < UInt32.size →
      ∃ stored, (s.performAll operations).contribution? c = some stored ∧
        stored.ns = first.ns ∧
        stored.points = (first :: later).flatMap (·.points) ∧
        stored.extensions = (first :: later).flatMap (·.extensions) ∧
        Contribution.ofRaw? c first.ns stored.raw = some stored ∧
        Contribution.pointsIn? stored.raw = some stored.points ∧
        Contribution.extensionsIn? stored.raw = some stored.extensions ∧
        (later.map Contribution.raw).foldlM Contribution.mergeRaw? first.raw =
          some stored.raw := by
  refine ⟨fun contributor ns array c => Contribution.ofRaw?_eq_some_iff,
    fun contributor ns array c h => ?_,
    fun s c operations first later hnew hkept hrecorded hcount => ?_⟩
  · obtain ⟨-, hpoints, hextensions⟩ := Contribution.counted_of_ofRaw? h
    exact ⟨(Contribution.raw_of_ofRaw? h).2.2, hpoints, hextensions⟩
  · obtain ⟨stored, hstored⟩ : ∃ stored, later.foldl Contribution.merge first = stored := ⟨_, rfl⟩
    have hfound : (s.performAll operations).contribution? c = some stored := by
      rw [contribution?_performAll s c operations hkept, hnew, hrecorded, ← hstored]
      rfl
    have hcontributor : stored.contributor = c := by simpa using List.find?_some hfound
    have hlists := Contribution.foldl_merge first later
    have haccepted := Contribution.accepted_raw (c := stored)
      (by rwa [← hstored, Contribution.count_foldl_merge])
    obtain ⟨-, hpoints, hextensions⟩ := Contribution.counted_of_ofRaw? haccepted
    have hraw := Contribution.foldlM_mergeRaw? first later hcount
    rw [hstored] at hlists hraw
    have hns : stored.ns = first.ns := by rw [hlists]
    refine ⟨stored, hfound, hns, by rw [hlists], by rw [hlists], ?_, hpoints, hextensions, hraw⟩
    rwa [hcontributor, hns] at haccepted

/-- Two contributions of one contributor with one of another between them. -/
def sampleRecords : List Operation :=
  [.addContribution ⟨⟨1⟩, "ui", [⟨0⟩, ⟨1⟩], [⟨2⟩]⟩, .addContribution ⟨⟨2⟩, "git", [⟨3⟩], []⟩,
    .remove [⟨0⟩], .addContribution ⟨⟨1⟩, "bar", [⟨4⟩], [⟨5⟩, ⟨6⟩]⟩]

theorem merged_sampleRecords :
    ∃ stored, (empty.performAll sampleRecords).contribution? ⟨1⟩ = some stored ∧
      stored.ns = "ui" ∧ stored.points = [⟨0⟩, ⟨1⟩, ⟨4⟩] ∧
      stored.extensions = [⟨2⟩, ⟨5⟩, ⟨6⟩] ∧
      Contribution.mergeRaw? [2, 1, 0, 1, 2] [1, 2, 4, 5, 6] = some stored.raw ∧
      stored.raw = [3, 3, 0, 1, 4, 2, 5, 6] := by
  obtain ⟨stored, hstored, hns, hpoints, hextensions, -, -, -, hraw⟩ :=
    merged_of_recorded.2.2 empty ⟨1⟩ sampleRecords ⟨⟨1⟩, "ui", [⟨0⟩, ⟨1⟩], [⟨2⟩]⟩
      [⟨⟨1⟩, "bar", [⟨4⟩], [⟨5⟩, ⟨6⟩]⟩] rfl (by simp [sampleRecords]) rfl (by decide)
  refine ⟨stored, hstored, hns, hpoints, hextensions, ?_, ?_⟩
  · simpa [Contribution.raw] using hraw
  · rw [Contribution.raw, hpoints, hextensions]
    rfl

end Store

end PluginRegistry
