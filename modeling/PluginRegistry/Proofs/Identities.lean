import PluginRegistry.Proofs.Readings

/-!
# Ids for good

An id is given out once, and what is stored under it first fixes its kind and its content for good.
So at every later moment a handle leads to that object, a point with other children maybe, or it is
invalid, and one that has become invalid stays so (`Registry.identities_of_succession`). Stopping
and opening again is no exception: slots that became free are not in the cache, but the next id is,
and no new object gets an id below it.
-/

namespace PluginRegistry

/-! ## What handles lead to -/

def Handle.object (h : Handle) (look : Resolvers) : Except RegistryError RegistryObject :=
  match h with
  | .point h => (h.object look).map .point
  | .extension h => (h.object look).map .extension
  | .element h => (h.object look).map .element

namespace Store

variable {s s' : Store} {h : Handle} {o : RegistryObject}

theorem object_get {look : Resolver} (hlook : look = s.get) (id : ObjectId) {kind : ObjectKind}
    {α : Type} {pick : RegistryObject → Option α} {wrap : α → RegistryObject}
    (hpick : ∀ o, (pick o).map wrap = if o.kind = kind then some o else none) :
    (look.object id kind pick).map wrap =
      ((s.object? id).filter (·.kind = kind)).elim (.error (.invalidObject id)) .ok := by
  rw [hlook]
  unfold Resolver.object get
  cases s.object? id with
  | none => rfl
  | some o =>
    have ho := hpick o
    by_cases hk : o.kind = kind
    · rw [if_pos hk] at ho
      obtain ⟨a, ha, rfl⟩ := Option.map_eq_some_iff.1 ho
      simp [hk, ha, Except.map, Option.filter]
    · simp [hk, Except.map, Option.filter]

variable {look look' : Resolvers}

theorem object_handle (hlook : look h.source = s.get) : h.object look =
    ((s.object? h.id).filter (·.kind = h.kind)).elim (.error (.invalidObject h.id)) .ok := by
  cases h with
  | point h => exact object_get hlook h.id fun o => by cases o <;> rfl
  | extension h => exact object_get hlook h.id fun o => by cases o <;> rfl
  | element h => exact object_get hlook h.id fun o => by cases o <;> rfl

theorem object_handle_eq_ok_iff (hlook : look h.source = s.get) :
    h.object look = .ok o ↔ s.object? h.id = some o ∧ o.kind = h.kind := by
  have hfilter : (s.object? h.id).filter (·.kind = h.kind) = some o ↔
      s.object? h.id = some o ∧ o.kind = h.kind := by
    rw [Option.filter_eq_some_iff, decide_eq_true_iff]
  rw [object_handle hlook, ← hfilter]
  cases (s.object? h.id).filter (·.kind = h.kind) with
  | none => exact ⟨nofun, nofun⟩
  | some o' => exact ⟨fun heq => congrArg some (Except.ok.inj heq),
      fun heq => congrArg Except.ok (Option.some.inj heq)⟩

theorem object_handle_eq_error_iff (hlook : look h.source = s.get) :
    h.object look = .error (.invalidObject h.id) ↔
    ∀ o, s.object? h.id = some o → o.kind ≠ h.kind := by
  have hfilter : (s.object? h.id).filter (·.kind = h.kind) = none ↔
      ∀ o, s.object? h.id = some o → o.kind ≠ h.kind := by
    simp only [Option.filter_eq_none_iff, decide_eq_true_iff, ne_eq]
  rw [object_handle hlook, ← hfilter]
  cases (s.object? h.id).filter (·.kind = h.kind) with
  | none => exact ⟨fun _ => rfl, fun _ => rfl⟩
  | some o => exact ⟨nofun, nofun⟩

/-! ## Handles through time -/

theorem Ages.bare_eq (hages : s.Ages s') {id : ObjectId} {o' : RegistryObject}
    (ho : s.object? id = some o) (ho' : s'.object? id = some o') : o'.bare = o.bare := by
  obtain ⟨o'', ho'', hb⟩ := hages.left (index_lt_of_object? ho) ho'
  rw [ho] at ho''
  cases ho''
  exact hb.symm

/-- A handle leads to what it led to, or it has become invalid. -/
theorem Ages.object_handle (hages : s.Ages s') (hlook : look h.source = s.get)
    (hlook' : look' h.source = s'.get) (ho : h.object look = .ok o) :
    (∃ o', h.object look' = .ok o' ∧ o'.bare = o.bare) ∨
      h.object look' = .error (.invalidObject h.id) := by
  obtain ⟨ho, hk⟩ := (object_handle_eq_ok_iff hlook).1 ho
  cases ho' : s'.object? h.id with
  | none =>
    refine .inr ((object_handle_eq_error_iff hlook').2 fun o' hsome => ?_)
    rw [ho'] at hsome
    cases hsome
  | some o' =>
    have hb := hages.bare_eq ho ho'
    have hk' : o'.kind = h.kind := (RegistryObject.kind_eq_of_bare_eq hb).trans hk
    exact .inl ⟨o', (object_handle_eq_ok_iff hlook').2 ⟨ho', hk'⟩, hb⟩

theorem Ages.invalid_handle (hages : s.Ages s') (hlook : look h.source = s.get)
    (hlook' : look' h.source = s'.get) (hlt : h.id.index < s.nextId)
    (hinvalid : h.object look = .error (.invalidObject h.id)) :
    h.object look' = .error (.invalidObject h.id) := by
  rw [object_handle_eq_error_iff hlook] at hinvalid
  rw [object_handle_eq_error_iff hlook']
  intro o' ho' hk'
  obtain ⟨o, ho, hb⟩ := hages.left hlt ho'
  exact hinvalid o ho ((RegistryObject.kind_eq_of_bare_eq hb).trans hk')

end Store

/-! ## What comes after a registry -/

namespace Registry

open Cache (plainDigest)

variable {digest : DigestFunction} {r r' : Registry}

/-- What can come after a registry: whatever becomes of it, or a registry that is started on a cache
in which the store is found as a stop lays it out, wherever that cache is. -/
inductive Succeeds (digest : DigestFunction) : Registry → Registry → Prop
  | continues {r r' : Registry} (h : Continues digest r r') : Succeeds digest r r'
  | reloaded {r : Registry} {files : FileSystem} {settings : Settings} {strategy : Strategy}
      (token : Option AccessToken) (hn : r.objects.nextId < UInt32.size)
      (hload : (loadCache digest files settings strategy.namespaces.fingerprint).2 =
        some (.ofParts r.objects.toParts)) :
    Succeeds digest r (start digest files settings strategy token)

def Succession (digest : DigestFunction) (r r' : Registry) : Prop :=
  Relation.ReflTransGen (Succeeds digest) r r'

theorem Succeeds.nextId_le (h : Succeeds digest r r') (hn : r'.objects.nextId ≤ UInt32.size) :
    r.objects.nextId ≤ UInt32.size := by
  cases h with
  | continues h => exact h.nextId_le hn
  | reloaded token hlt hload => exact hlt.le

theorem Succeeds.objects (h : Succeeds digest r r') (hw : r.objects.Whole) :
    (∃ b, r'.objects = r.objects.mark b) ∨ ∃ w : Write, r' = w.perform r := by
  cases h with
  | continues h => exact h.objects hw
  | reloaded token hlt hload =>
    refine .inl ⟨false, ?_⟩
    rw [(start_frame digest _ _ _ token).2.2.2, hload, Option.getD_some,
      Store.ofParts_toParts hw hlt]

theorem Succeeds.ages (h : Succeeds digest r r') (hw : r.objects.Whole)
    (hn : r'.objects.nextId ≤ UInt32.size) : r'.objects.Whole ∧ r.objects.Ages r'.objects := by
  obtain ⟨b, hmark⟩ | ⟨w, rfl⟩ := h.objects hw
  · rw [hmark]
    exact ⟨hw.mark b, .of_kept (Nat.le_refl _) fun _ _ => rfl⟩
  · exact ⟨w.whole_perform hw hn, w.ages_perform hw.settled hn⟩

namespace Succession

theorem nextId_le (h : Succession digest r r') (hn : r'.objects.nextId ≤ UInt32.size) :
    r.objects.nextId ≤ UInt32.size := by
  induction h with
  | refl => exact hn
  | tail _ hstep ih => exact ih (hstep.nextId_le hn)

theorem ages (h : Succession digest r r') (hw : r.objects.Whole)
    (hn : r'.objects.nextId ≤ UInt32.size) : r'.objects.Whole ∧ r.objects.Ages r'.objects := by
  induction h with
  | refl => exact ⟨hw, .refl _⟩
  | tail _ hstep ih =>
    obtain ⟨hmid, hages⟩ := ih (hstep.nextId_le hn)
    obtain ⟨hlast, hages'⟩ := hstep.ages hmid hn
    exact ⟨hlast, hages.trans hages'⟩

end Succession

/-- In whatever comes after an empty registry, with stops and starts in between: no id is given out
twice; what is under an id at two moments is of one kind and one content, a point's children apart;
a handle on the live store leads to what it led to earlier or is invalid; and one with an id that
was given out which is invalid stays so. -/
theorem identities_of_succession {r₀ : Registry} (hempty : r₀.objects = .empty)
    (h : Succession digest r₀ r) (hlater : Succession digest r r')
    (hn : r'.objects.nextId ≤ UInt32.size) :
    r.objects.nextId ≤ r'.objects.nextId ∧
    (∀ id o', id.index < r.objects.nextId → r'.objects.object? id = some o' →
      o'.id = id ∧ ∃ o, r.objects.object? id = some o ∧ o.kind = o'.kind ∧ o.bare = o'.bare) ∧
    ∀ handle : Handle, handle.source = .live →
      (∀ o, handle.object r.resolver = .ok o →
        (∃ o', handle.object r'.resolver = .ok o' ∧ o'.bare = o.bare) ∨
          handle.object r'.resolver = .error (.invalidObject handle.id)) ∧
      (handle.id.index < r.objects.nextId →
        handle.object r.resolver = .error (.invalidObject handle.id) →
          handle.object r'.resolver = .error (.invalidObject handle.id)) := by
  have hwhole := (h.ages (hempty ▸ Store.whole_empty) (hlater.nextId_le hn)).1
  obtain ⟨hwhole', hages⟩ := hlater.ages hwhole hn
  refine ⟨hages.nextId_le, fun id o' hlt ho' => ?_, fun handle hlive => ?_⟩
  · obtain ⟨o, ho, hb⟩ := hages.left hlt ho'
    exact ⟨hwhole'.settled.sound.id_eq ho', o, ho, RegistryObject.kind_eq_of_bare_eq hb, hb⟩
  · have hlook : ∀ r : Registry, r.resolver handle.source = r.objects.get := fun r => by
      rw [hlive]
      rfl
    exact ⟨fun o ho => hages.object_handle (hlook r) (hlook r') ho,
      fun hlt hinvalid => hages.invalid_handle (hlook r) (hlook r') hlt hinvalid⟩

/-- The registry that was opened again, once the contributor is taken out. -/
def sampleGone : Registry := (Write.remove ⟨1⟩).perform sampleRead

/-- The same contributor brings the same item to it. -/
def sampleBack : Registry := sampleBringing.perform sampleGone

theorem identities_sampleBack :
    (∃ o o', (Handle.extension ⟨.live, ⟨0⟩⟩).object sampleBrought.resolver = .ok o ∧
      (Handle.extension ⟨.live, ⟨0⟩⟩).object sampleRead.resolver = .ok o' ∧ o'.bare = o.bare) ∧
    (Handle.extension ⟨.live, ⟨0⟩⟩).object sampleBack.resolver = .error (.invalidObject ⟨0⟩) ∧
    sampleBack.objects.objectsFrom ⟨1⟩ .extension = [⟨3⟩] := by
  have hempty : (sampleOpened .empty sampleSettings).objects = .empty := by
    have hnone : (loadCache plainDigest .empty sampleSettings 0).2.isNone = true := by
      decide +kernel
    rw [(sampleOpened_frame .empty sampleSettings).2.2.2, Option.isNone_iff_eq_none.1 hnone]
    rfl
  have hbrought : Succession plainDigest (sampleOpened .empty sampleSettings) sampleBrought :=
    .single (.continues (.moment (.turn (.write _ _))))
  have hreopened : Continues plainDigest sampleBrought (start plainDigest
      (sampleBrought.finishStop plainDigest .plain .empty).2 sampleSettings sample.strategy none) :=
    .reopened none saves_sampleBrought (by decide +kernel) (by decide +kernel) (by decide +kernel)
  have hread : Succession plainDigest sampleBrought sampleRead := .single (.continues hreopened)
  have hgone : Succession plainDigest sampleRead sampleGone :=
    .single (.continues (.moment (.turn (.write _ _))))
  have hback : Succession plainDigest sampleGone sampleBack :=
    .single (.continues (.moment (.turn (.write _ _))))
  obtain ⟨-, -, hkept⟩ := identities_of_succession hempty hbrought hread (by decide +kernel)
  obtain ⟨-, -, hstays⟩ := identities_of_succession hempty ((hbrought.trans hread).trans hgone)
    hback (by decide +kernel)
  have hthere : ((Handle.extension ⟨.live, ⟨0⟩⟩).object sampleBrought.resolver).toOption.isSome =
      true ∧ ((Handle.extension ⟨.live, ⟨0⟩⟩).object sampleRead.resolver).toOption.isSome =
        true := by
    decide +kernel
  have hfree : (sampleGone.objects.object? ⟨0⟩).isNone = true := by decide +kernel
  refine ⟨?_, (hstays (.extension ⟨.live, ⟨0⟩⟩) rfl).2 (by decide +kernel) ?_, by decide +kernel⟩
  · obtain ⟨o, ho⟩ := Option.isSome_iff_exists.1 hthere.1
    obtain ⟨o', ho', hbare⟩ | hinvalid := (hkept _ rfl).1 o (of_toOption_ok ho)
    · exact ⟨o, o', of_toOption_ok ho, ho', hbare⟩
    · rw [hinvalid] at hthere
      cases hthere.2
  · refine (Store.object_handle_eq_error_iff rfl).2 fun o ho => ?_
    rw [show (Handle.extension ⟨.live, ⟨0⟩⟩).id = ⟨0⟩ from rfl,
      Option.isNone_iff_eq_none.1 hfree] at ho
    cases ho

end Registry

end PluginRegistry
