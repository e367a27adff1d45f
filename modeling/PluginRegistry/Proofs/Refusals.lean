import PluginRegistry.Proofs.Outcomes
import PluginRegistry.Proofs.Results
import PluginRegistry.Registry.Lookup

/-!
# Calls that do nothing

A call is denied if it is refused, or if its answer is that nothing was done. A refused call runs no
transaction (`Write.transaction?_of_error`), and neither does one that has nothing to do, except for
the removal of an unknown contributor, whose transaction ends as it began. So all that a denied call
leaves is a record in the log (`Write.unchanged_of_denied`).

There is one exception. A point whose id is taken is not created, but its contributor is entered
among the contributors nevertheless (`Write.Enters`), which others can tell
(`Registry.entered_sampleShared`).
-/

namespace PluginRegistry

namespace Transaction

/-- A declaration of one point whose id is taken brings nothing but an empty contribution. -/
theorem ingest_of_taken (t : Transaction) {p : PreparedDeclaration} {d : PointDecl}
    (hpoints : p.declaration.points = [d]) (hextensions : p.declaration.extensions = [])
    (htaken : (t.objects.pointNamed? (Name.qualify p.ns d.localId)).isSome = true) :
    (t.ingest p).2.tracker = t.tracker ∧ (t.ingest p).2.objects = t.objects.addContribution {
      contributor := p.declaration.contributor, ns := p.ns, points := [], extensions := [] } := by
  have hadd : t.addPoints p p.declaration.points =
      ([], t.report (.duplicatePoint p.declaration.contributor (Name.qualify p.ns d.localId))) := by
    rw [hpoints, addPoints, if_pos htaken]
    rfl
  unfold ingest
  rw [hadd, hextensions]
  exact ⟨rfl, rfl⟩

theorem points_ingest_of_free (t : Transaction) {p : PreparedDeclaration} {d : PointDecl}
    (hpoints : p.declaration.points = [d])
    (hfree : (t.objects.pointNamed? (Name.qualify p.ns d.localId)).isSome = false) :
    (t.ingest p).1.points = 1 := by
  have hadd : (t.addPoints p p.declaration.points).1.length = 1 := by
    rw [hpoints, addPoints, if_neg (by simp [hfree])]
    rfl
  exact hadd

theorem extensions_ingest (t : Transaction) (p : PreparedDeclaration) :
    (t.ingest p).1.extensions = p.declaration.extensions.length := by
  have hlength : ∀ s ds, (addExtensions p s ds).1.length = ds.length := by
    intro s ds
    induction ds generalizing s with
    | nil => rfl
    | cons d ds ih => exact congrArg (· + 1) (ih _)
  exact hlength _ _

end Transaction

namespace Registry

/-! ## Answers -/

theorem answer_transact {α : Type} (r : Registry) (write : Transaction → α × Transaction) :
    (r.transact write).1 = if r.stopped then .error .stopped else .ok (write r.begin).1 := by
  unfold transact
  split <;> rfl

theorem answer_addAll (r : Registry) (ds : List Declaration) :
    (r.addAll ds).1 =
      if (r.prepareAll ds).1.isEmpty then .ok ()
      else if r.stopped then .error .stopped else .ok () := by
  unfold addAll
  dsimp only
  split
  · rfl
  · rw [answer_transact, (sameButLog_prepareAll r ds).stopped_eq]

theorem answer_ingestOne (r : Registry) (d : Declaration) :
    (r.ingestOne d).1 = match (r.prepare d).1 with
      | none => .ok none
      | some p => if r.stopped then .error .stopped
        else .ok (some ((r.prepare d).2.begin.ingest p).1) := by
  have hsame := sameButLog_prepare r d
  unfold ingestOne
  rcases hp : r.prepare d with ⟨prepared, r'⟩
  rw [hp] at hsame
  cases prepared with
  | none => rfl
  | some p =>
    dsimp only
    rw [answer_transact, hsame.stopped_eq]

theorem prepare_fst (r : Registry) (d : Declaration) :
    (r.prepare d).1 = (r.strategy.namespaces.find? d.contributor).map fun ns =>
      { declaration := d, ns, owner := r.strategy.ownerOf d.contributor } := by
  unfold prepare
  cases r.strategy.namespaces.find? d.contributor <;> rfl

theorem ingestion?_singleton (r : Registry) (d : Declaration) :
    r.ingestion? [d] = (r.prepare d).1.bind fun p =>
      if r.stopped then none else some ((r.prepare d).2.begin.ingest p).2 := by
  have hstopped := (sameButLog_prepare r d).stopped_eq
  unfold ingestion?
  simp only [prepareAll, hstopped]
  cases (r.prepare d).1 with
  | none => rfl
  | some p => rfl

theorem ingestion?_of_stopped {r : Registry} (h : r.stopped = true) (ds : List Declaration) :
    r.ingestion? ds = none := by
  have hstopped := (sameButLog_prepareAll r ds).stopped_eq
  unfold ingestion?
  dsimp only
  rw [hstopped, h, Bool.or_true, if_pos rfl]

/-- A declaration that has a call of its own is anonymous, or it is taken in. -/
theorem ingestOne_ok {r : Registry} {d : Declaration} {answer : Option Ingested}
    (h : (r.ingestOne d).1 = .ok answer) :
    (r.strategy.namespaces.find? d.contributor = none ∧ r.ingestion? [d] = none) ∨
      ∃ (t : Transaction) (p : PreparedDeclaration), t.objects = r.objects ∧
        t.tracker.deltas = .empty ∧ p.declaration = d ∧
        r.strategy.namespaces.find? d.contributor = some p.ns ∧
        answer = some (t.ingest p).1 ∧ r.ingestion? [d] = some (t.ingest p).2 := by
  have hprepare := r.prepare_fst d
  rw [answer_ingestOne] at h
  rw [ingestion?_singleton]
  cases hp : (r.prepare d).1 with
  | none =>
    rw [hp] at hprepare
    exact .inl ⟨Option.map_eq_none_iff.1 hprepare.symm, rfl⟩
  | some p =>
    rw [hp] at h hprepare
    obtain ⟨ns, hns, rfl⟩ := Option.map_eq_some_iff.1 hprepare.symm
    dsimp only [Option.bind_some] at h ⊢
    split at h
    · cases h
    · rw [if_neg ‹_›]
      exact .inr ⟨_, _, (sameButLog_prepare r d).objects_eq, rfl, rfl, hns, (Except.ok.inj h).symm,
        rfl⟩

theorem Keeps.eq_of_objects {r r' : Registry} (h : Keeps r r') {objects : Store}
    (hobjects : r'.objects = objects) (hdispatcher : r'.dispatcher = r.dispatcher) :
    r' = { r with objects, log := r'.log } := by
  cases r
  cases r'
  cases h
  simp_all

end Registry

namespace Write

variable {r : Registry} {w : Write}

/-! ## What a write declares -/

/-- The declarations that a write brings, if it is let through and its arguments are complete. -/
def declarations (r : Registry) : Write → List Declaration
  | add d => [d]
  | addAll ds => ds
  | remove _ => []
  | createPoint c localId label schema token =>
    match r.checkWriteAccess token .createExtensionPoint with
    | .error _ => []
    | .ok _ =>
      if localId = "" then []
      else [{
        contributor := c, points := [{ localId, label := r.strategy.localize label, schema }] }]
  | createExtension c localId label target content token =>
    match r.checkWriteAccess token .createExtension with
    | .error _ => []
    | .ok _ =>
      if target = "" then []
      else [{
        contributor := c
        extensions := [{
          localId, target
          label := r.strategy.localize label
          content := localizeAll r.strategy.localize content }] }]
  | addFromSource read c source name token =>
    match r.checkWriteAccess token .addFromSource with
    | .error _ => []
    | .ok _ =>
      match read c source name with
      | .error _ => []
      | .ok declaration => [declaration]

theorem transaction?_eq_ingestion (hw : ∀ c, w ≠ .remove c) :
    w.transaction? r = r.ingestion? (w.declarations r) := by
  have hnone : r.ingestion? [] = none := rfl
  cases w with
  | add d => rfl
  | addAll ds => rfl
  | remove c => exact absurd rfl (hw c)
  | createPoint c localId label schema token =>
    simp only [transaction?, declarations]
    cases r.checkWriteAccess token .createExtensionPoint with
    | error _ => rfl
    | ok _ => by_cases hid : localId = "" <;> simp [hid, hnone]
  | createExtension c localId label target content token =>
    simp only [transaction?, declarations]
    cases r.checkWriteAccess token .createExtension with
    | error _ => rfl
    | ok _ => by_cases htarget : target = "" <;> simp [htarget, hnone]
  | addFromSource read c source name token =>
    simp only [transaction?, declarations]
    cases r.checkWriteAccess token .addFromSource with
    | error _ => rfl
    | ok _ => cases read c source name <;> rfl

theorem transaction?_of_stopped (h : r.stopped = true) (w : Write) : w.transaction? r = none := by
  by_cases hw : ∃ c, w = .remove c
  · obtain ⟨c, rfl⟩ := hw
    exact if_pos h
  · rw [transaction?_eq_ingestion (not_exists.1 hw)]
    exact Registry.ingestion?_of_stopped h _

/-! ## Denied calls -/

/-- The call is refused, or answers that nothing was done. -/
def Denied (r : Registry) (w : Write) : Prop :=
  (∃ e, w.answer r = .error e) ∨ w.answer r = .ok (some false)

/-! ## What they leave -/

theorem transaction?_of_error {e : RegistryError} (h : w.answer r = .error e) :
    w.transaction? r = none := by
  have addAll : ∀ ds, (r.addAll ds).1 = .error e → r.ingestion? ds = none := by
    intro ds hds
    rw [Registry.answer_addAll] at hds
    split at hds
    · cases hds
    · split at hds
      · exact Registry.ingestion?_of_stopped ‹_› ds
      · cases hds
  have ingestOne : ∀ d, (r.ingestOne d).1 = .error e → r.ingestion? [d] = none := by
    intro d hd
    rw [Registry.answer_ingestOne] at hd
    split at hd
    · cases hd
    · split at hd
      · exact Registry.ingestion?_of_stopped ‹_› [d]
      · cases hd
  cases w with
  | add d => exact addAll [d] (error_of_map h)
  | addAll declarations => exact addAll declarations (error_of_map h)
  | remove c =>
    have hremove := (Registry.answer_transact r _).symm.trans (error_of_map h)
    rw [transaction?]
    split at hremove
    · exact if_pos ‹_›
    · cases hremove
  | createPoint c localId label schema token =>
    simp only [answer, Registry.createPoint] at h
    simp only [transaction?]
    cases hcheck : r.checkWriteAccess token .createExtensionPoint with
    | error _ => rfl
    | ok _ =>
      rw [hcheck] at h
      dsimp only at h ⊢
      split at h
      · exact if_pos ‹_›
      · rw [if_neg ‹_›]
        exact ingestOne _ (error_of_map (error_of_map h))
  | createExtension c localId label target content token =>
    simp only [answer, Registry.createExtension] at h
    simp only [transaction?]
    cases hcheck : r.checkWriteAccess token .createExtension with
    | error _ => rfl
    | ok _ =>
      rw [hcheck] at h
      dsimp only at h ⊢
      split at h
      · exact if_pos ‹_›
      · rw [if_neg ‹_›]
        exact ingestOne _ (error_of_map (error_of_map h))
  | addFromSource read c source name token =>
    simp only [answer, Registry.addFromSource] at h
    simp only [transaction?]
    cases hcheck : r.checkWriteAccess token .addFromSource with
    | error _ => rfl
    | ok _ =>
      rw [hcheck] at h
      dsimp only at h ⊢
      cases hread : read c source name with
      | error problems => rfl
      | ok declaration =>
        rw [hread] at h
        exact addAll [declaration] (error_of_map (error_of_map h))

theorem perform_of_silent {t : Transaction} (ht : w.transaction? r = some t)
    (hsilent : t.tracker.deltas = .empty) :
    w.perform r = { r with objects := t.objects, log := (w.perform r).log } := by
  have hleaves := w.leaves_perform r
  rw [ht] at hleaves
  have hfinish : t.tracker.finish r.dispatcher.snapshots =
      (.empty, r.dispatcher.snapshots, {}) := by
    unfold DeltaTracker.finish
    rw [hsilent]
    rfl
  refine (w.keeps_perform r).eq_of_objects hleaves.1 ?_
  rw [hleaves.2, hfinish, Registry.dispatcher_fire]
  rfl

/-- A point that is not created although nobody refused: its contributor is anonymous, or its id is
taken and only an empty contribution is entered. -/
theorem transaction_of_not_created {c : ContributorId} {localId label : String}
    {schema : Option String} {token : Option AccessToken}
    (h : (createPoint c localId label schema token).answer r = .ok (some false)) :
    (r.strategy.namespaces.find? c = none ∧
      (createPoint c localId label schema token).transaction? r = none) ∨
    ∃ ns t, r.strategy.namespaces.find? c = some ns ∧
      (r.objects.pointNamed? (Name.qualify ns localId)).isSome = true ∧
      (createPoint c localId label schema token).transaction? r = some t ∧
      t.tracker.deltas = .empty ∧
      t.objects = r.objects.addContribution
        { contributor := c, ns, points := [], extensions := [] } := by
  simp only [answer, Registry.createPoint] at h
  simp only [transaction?]
  cases hcheck : r.checkWriteAccess token .createExtensionPoint with
  | error _ =>
    rw [hcheck] at h
    cases h
  | ok _ =>
    rw [hcheck] at h
    dsimp only at h ⊢
    split at h
    · cases h
    · rw [if_neg ‹_›]
      obtain ⟨created, hcreated, hfalse⟩ := ok_of_map h
      cases hfalse
      obtain ⟨ingested, hingested, hany⟩ := ok_of_map hcreated
      obtain ⟨hnone, hidle⟩ | ⟨t, p, hobjects, hdeltas, hd, hns, rfl, ht⟩ :=
        Registry.ingestOne_ok hingested
      · exact .inl ⟨hnone, hidle⟩
      · cases htaken : (t.objects.pointNamed? (Name.qualify p.ns localId)).isSome with
        | false =>
          have hpoints := t.points_ingest_of_free (p := p) (by rw [hd]) htaken
          simp [hpoints] at hany
        | true =>
          obtain ⟨htracker, hentered⟩ := t.ingest_of_taken (p := p) (by rw [hd]) (by rw [hd]) htaken
          rw [hobjects] at htaken hentered
          rw [hd] at hentered
          exact .inr ⟨p.ns, _, hns, htaken, ht, by rw [htracker, hdeltas], hentered⟩

/-- Any other write that answers that nothing was done has a transaction that ends as it began, or
none. -/
theorem transaction_of_nothing (h : w.answer r = .ok (some false)) {t : Transaction}
    (ht : w.transaction? r = some t)
    (hcreate : ∀ c localId label schema token, w ≠ .createPoint c localId label schema token) :
    t.tracker.deltas = .empty ∧ t.objects = r.objects := by
  cases w with
  | add d =>
    obtain ⟨_, -, hnone⟩ := ok_of_map h
    cases hnone
  | addAll declarations =>
    obtain ⟨_, -, hnone⟩ := ok_of_map h
    cases hnone
  | remove c =>
    obtain ⟨known, hknown, hfalse⟩ := ok_of_map h
    cases hfalse
    have hanswer := (Registry.answer_transact r _).symm.trans hknown
    rw [transaction?] at ht
    split at hanswer
    · cases hanswer
    · rw [if_neg ‹_›] at ht
      cases hc : r.begin.objects.hasContribution c with
      | false =>
        rw [Transaction.removeContributor_of_unknown hc] at ht
        cases ht
        exact ⟨rfl, rfl⟩
      | true =>
        obtain ⟨record, hremoved⟩ := Transaction.removeContributor_of_known hc
        rw [hremoved] at hanswer
        cases hanswer
  | createPoint => exact absurd rfl (hcreate _ _ _ _ _)
  | createExtension c localId label target content token =>
    simp only [answer, Registry.createExtension] at h
    simp only [transaction?] at ht
    split at ht
    · cases ht
    · rename_i hcheck
      rw [hcheck] at h
      dsimp only at h
      split at ht
      · cases ht
      · rw [if_neg ‹_›] at h
        obtain ⟨created, hcreated, hfalse⟩ := ok_of_map h
        cases hfalse
        obtain ⟨ingested, hingested, hany⟩ := ok_of_map hcreated
        obtain ⟨-, hidle⟩ | ⟨t₀, p, -, -, hd, -, rfl, -⟩ := Registry.ingestOne_ok hingested
        · rw [hidle] at ht
          cases ht
        · simp [t₀.extensions_ingest, hd] at hany
  | addFromSource read c source name token =>
    simp only [answer, Registry.addFromSource] at h
    simp only [transaction?] at ht
    split at ht
    · cases ht
    · rename_i hcheck
      rw [hcheck] at h
      dsimp only at h
      split at ht
      · cases ht
      · rename_i declaration hread
        rw [hread] at h
        obtain ⟨added, hadded, hfalse⟩ := ok_of_map h
        cases hfalse
        obtain ⟨_, -, htrue⟩ := ok_of_map hadded
        cases htrue

/-- A point that is not created because its id is taken enters the contribution `k` nevertheless. -/
inductive Enters (r : Registry) : Write → Contribution → Prop
  | taken {c localId label schema token ns} (hns : r.strategy.namespaces.find? c = some ns)
      (htaken : (r.objects.pointNamed? (Name.qualify ns localId)).isSome = true)
      (hanswer : (createPoint c localId label schema token).answer r = .ok (some false)) :
      Enters r (.createPoint c localId label schema token)
        { contributor := c, ns, points := [], extensions := [] }

/-- A denied call leaves nothing but log records, unless it enters a contribution: then it leaves
nothing but that. -/
theorem unchanged_of_denied (h : w.Denied r) :
    ((∀ k, ¬w.Enters r k) → w.perform r = { r with log := (w.perform r).log }) ∧
      ∀ k, w.Enters r k →
        w.perform r =
          { r with objects := r.objects.addContribution k, log := (w.perform r).log } := by
  have idle : w.transaction? r = none → w.perform r = { r with log := (w.perform r).log } := by
    intro ht
    have hleaves := w.leaves_perform r
    rw [ht] at hleaves
    exact (w.keeps_perform r).eq_of_objects hleaves.1 hleaves.2
  refine ⟨fun hnone => ?_, ?_⟩
  · rcases h with ⟨e, he⟩ | hfalse
    · exact idle (transaction?_of_error he)
    · by_cases hcreate : ∀ c localId label schema token,
        w ≠ .createPoint c localId label schema token
      · cases ht : w.transaction? r with
        | none => exact idle ht
        | some t =>
          obtain ⟨hsilent, hobjects⟩ := transaction_of_nothing hfalse ht hcreate
          exact hobjects ▸ perform_of_silent ht hsilent
      · push Not at hcreate
        obtain ⟨c, localId, label, schema, token, rfl⟩ := hcreate
        obtain ⟨-, ht⟩ | ⟨ns, t, hns, htaken, -⟩ := transaction_of_not_created hfalse
        · exact idle ht
        · exact absurd (.taken hns htaken hfalse) (hnone _)
  · rintro k ⟨hns, htaken, hanswer⟩
    obtain ⟨hnone, -⟩ | ⟨ns, t, hns', -, ht, hsilent, hobjects⟩ :=
      transaction_of_not_created hanswer
    · rw [hns] at hnone
      cases hnone
    · rw [hns] at hns'
      cases hns'
      exact hobjects ▸ perform_of_silent ht hsilent

end Write

/-! ## A point that two contributors want -/

namespace Registry

/-- A registry whose two contributors share a namespace, in which the first has a point. -/
def sampleShared : Registry :=
  samplePoint.perform
    { sample with strategy := { namespaces := { entries := [(⟨1⟩, "ui"), (⟨3⟩, "ui")] } } }

/-- The second contributor wants the same point. -/
def sampleTaken : Write := .createPoint ⟨3⟩ "menu" "" none none

theorem denied_sampleTaken : sampleTaken.Denied sampleShared := .inr (by decide +kernel)

theorem unchanged_sampleShared :
    (Write.remove ⟨3⟩).perform sampleShared =
      { sampleShared with log := ((Write.remove ⟨3⟩).perform sampleShared).log } ∧
    sampleTaken.perform sampleShared =
      { sampleShared with
        objects := sampleShared.objects.addContribution
          { contributor := ⟨3⟩, ns := "ui", points := [], extensions := [] }
        log := (sampleTaken.perform sampleShared).log } := by
  have hremove : (Write.remove ⟨3⟩).Denied sampleShared := .inr (by decide +kernel)
  exact ⟨(Write.unchanged_of_denied hremove).1 (fun _ h => nomatch h),
    (Write.unchanged_of_denied denied_sampleTaken).2 _
      (.taken (by decide +kernel) (by decide +kernel) (by decide +kernel))⟩

/-- The answer is that nothing was done, and yet there is a contributor more. -/
theorem entered_sampleShared : sampleShared.objects.Reachable ∧ sampleTaken.Denied sampleShared ∧
    sampleShared.hasContributor ⟨3⟩ = false ∧
      (sampleTaken.perform sampleShared).hasContributor ⟨3⟩ = true :=
  ⟨.write _ _ .empty, denied_sampleTaken, by decide +kernel, by decide +kernel⟩

end Registry

end PluginRegistry
