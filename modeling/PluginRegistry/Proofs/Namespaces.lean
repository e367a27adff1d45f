import PluginRegistry.Proofs.Undoing

/-!
# Questions by namespace

Questions by namespace go through the contributions. A contribution stays in the namespace in which
its contributor first brought something, so these questions answer exactly what is *filed* in a
namespace, each object once (`Store.Balanced.mem_filed_iff`, `Store.Balanced.nodup_filed`).

A point and an extension carry a namespace of their own, the one that the host gave their
contributor when they were taken in. The two are the same (`Store.InStep`) as long as the host gives
no contributor another namespace while it has a contribution (`Write.Agrees`); then the answers are
by the objects' own namespaces (`Registry.filed_of_succession`). A host that does so makes them
fall apart: what comes later is filed in the earlier namespace (`Registry.misfiled_sampleMoved`).
-/

namespace PluginRegistry

/-- The namespace that a point or an extension carries. Elements carry none. -/
def RegistryObject.ns? : RegistryObject → Option String
  | .point p => some p.ns
  | .extension e => some e.ns
  | .element _ => none

@[simp] theorem RegistryObject.ns?_bare (o : RegistryObject) : o.bare.ns? = o.ns? := by
  cases o <;> rfl

theorem RegistryObject.ns?_eq_of_bare_eq {o o' : RegistryObject} (h : o'.bare = o.bare) :
    o'.ns? = o.ns? := by
  rw [← ns?_bare, h, ns?_bare]

namespace Store

variable {s s' : Store} {c : ContributorId} {kind : ObjectKind} {id : ObjectId} {ns : String}

/-- The namespace in which what a contributor brought is filed. -/
def fileOf? (s : Store) (c : ContributorId) : Option String := (s.contribution? c).map (·.ns)

def filed (s : Store) (kind : ObjectKind) (ns : String) : List ObjectId :=
  (s.contributions.filter (·.ns = ns)).flatMap (·.ids kind)

/-- Whatever carries a namespace is filed in it. -/
def InStep (s : Store) : Prop :=
  ∀ id o ns, s.object? id = some o → o.ns? = some ns → s.fileOf? o.contributor = some ns

/-! ## What is filed -/

theorem Listed.contribution?_of_mem (h : s.Listed) {k : Contribution} (hk : k ∈ s.contributions) :
    s.contribution? k.contributor = some k := by
  cases hc : s.contribution? k.contributor with
  | none => exact absurd (List.find?_eq_none.1 hc k hk) (by simp)
  | some known =>
    have hcontributor : known.contributor = k.contributor := by simpa using List.find?_some hc
    rw [List.inj_on_of_nodup_map h.contributors_nodup (List.mem_of_find?_eq_some hc) hk
      hcontributor]

namespace Balanced

theorem mem_filed_iff (h : s.Balanced) (kind : ObjectKind) (hkind : kind ≠ .element) :
    id ∈ s.filed kind ns ↔
      ∃ o, s.object? id = some o ∧ o.kind = kind ∧ s.fileOf? o.contributor = some ns := by
  rw [filed, List.mem_flatMap]
  constructor
  · rintro ⟨k, hk, hid⟩
    obtain ⟨hk, hns⟩ := List.mem_filter.1 hk
    have hcontribution := h.listed.contribution?_of_mem hk
    obtain ⟨o, ho, hkind, hco⟩ := h.live_of_mem hcontribution kind hid
    refine ⟨o, ho, hkind, ?_⟩
    rw [fileOf?, hco, hcontribution, Option.map_some, of_decide_eq_true hns]
  · rintro ⟨o, ho, rfl, hfile⟩
    obtain ⟨k, hk, hid⟩ := h.credited id o ho hkind
    rw [fileOf?, hk, Option.map_some, Option.some.injEq] at hfile
    exact ⟨k, List.mem_filter.2 ⟨List.mem_of_find?_eq_some hk, decide_eq_true hfile⟩, hid⟩

theorem nodup_filed (h : s.Balanced) (kind : ObjectKind) (ns : String) :
    (s.filed kind ns).Nodup := by
  have hcontributors : (s.contributions.filter (·.ns = ns)).Pairwise
      fun k k' => k.contributor ≠ k'.contributor :=
    (List.pairwise_map.1 h.listed.contributors_nodup).filter _
  refine List.nodup_flatMap.2 ⟨fun k hk => ?_,
    hcontributors.imp_of_mem fun hk hk' hne id hid hid' => ?_⟩
  · have hk := List.mem_of_mem_filter hk
    cases kind with
    | point => exact (h.listed.points k hk).nodup
    | extension => exact (h.listed.extensions k hk).nodup
    | element => exact .nil
  · -- an object has one contributor
    obtain ⟨o, ho, -, hco⟩ :=
      h.live_of_mem (h.listed.contribution?_of_mem (List.mem_of_mem_filter hk)) kind hid
    obtain ⟨o', ho', -, hco'⟩ :=
      h.live_of_mem (h.listed.contribution?_of_mem (List.mem_of_mem_filter hk')) kind hid'
    rw [ho] at ho'
    cases ho'
    exact hne (hco.symm.trans hco')

end Balanced

theorem Settled.isLinked_iff (h : s.Settled) : s.isLinked id = true ↔ ∃ q, s.HasLink id q := by
  unfold isLinked
  constructor
  · intro hlinked
    split at hlinked
    · cases hlinked
    · obtain ⟨p, hp, hmem⟩ := (Option.any_eq_true _ _).1 hlinked
      obtain ⟨hp, -⟩ := h.sound.pointNamed?_eq_some_iff.1 hp
      exact ⟨p.id, p, hp, List.contains_iff_mem.1 hmem⟩
  · rintro ⟨q, hlink⟩
    obtain ⟨p, e, hp, he, htarget⟩ := h.hasLink_iff.1 hlink
    obtain ⟨p', hp', hmem⟩ := hlink
    rw [hp] at hp'
    cases hp'
    have hid := h.sound.point_id hp
    subst hid
    rw [he]
    dsimp only
    rw [htarget, h.sound.pointNamed?_eq_some_iff.2 ⟨hp, rfl⟩]
    exact List.contains_iff_mem.2 hmem

/-! ## In step -/

theorem fileOf?_congr (h : s'.contribution? c = s.contribution? c) :
    s'.fileOf? c = s.fileOf? c := by
  rw [fileOf?, h, fileOf?]

/-- A later contribution is filed where the earlier one is. -/
theorem fileOf?_addContribution (s : Store) (k : Contribution) (c : ContributorId) :
    (s.addContribution k).fileOf? c =
      if k.contributor = c then some ((s.fileOf? c).getD k.ns) else s.fileOf? c := by
  rw [fileOf?, contribution?_addContribution, fileOf?]
  split
  · cases s.contribution? c <;> rfl
  · rfl

theorem inStep_empty : empty.InStep := fun id o ns ho => by simp at ho

theorem InStep.relinked (h : s.InStep) (hr : Relinked s s') : s'.InStep := by
  intro id o ns ho hns
  obtain ⟨o', ho', hb⟩ := hr.object?_bare ho
  rw [fileOf?_congr (hr.contribution?_eq _), ← RegistryObject.contributor_eq_of_bare_eq hb]
  exact h id o' ns ho' ((RegistryObject.ns?_eq_of_bare_eq hb).trans hns)

theorem InStep.mark (h : s.InStep) (b : Bool) : (s.mark b).InStep :=
  h.relinked (.of_slots_eq rfl rfl rfl)

theorem InStep.without (h : s.InStep) (hw : Without c s s') : s'.InStep := by
  intro id o' ns ho' hns
  obtain ⟨o, ho, hb⟩ := hw.old ho'
  have hco := hw.contribution?_eq o'.contributor
  rw [if_neg (hw.gone ho')] at hco
  rw [fileOf?_congr hco, RegistryObject.contributor_eq_of_bare_eq hb]
  exact h id o ns ho ((RegistryObject.ns?_eq_of_bare_eq hb).symm.trans hns)

end Store

namespace Transaction

variable {t : Transaction}

theorem fileOf?_ingest (h : t.objects.Settled) (p : PreparedDeclaration)
    (hn : (t.ingest p).2.objects.nextId ≤ UInt32.size) (c : ContributorId) :
    (t.ingest p).2.objects.fileOf? c = if p.declaration.contributor = c then
      some ((t.objects.fileOf? c).getD p.ns) else t.objects.fileOf? c := by
  obtain ⟨-, t', record, hadds, heq⟩ := settled_ingest h p hn
  have hr := relinked_of_adds hadds
  obtain ⟨s₁, s₂, hp, he, -, hobjects⟩ := founds_stored h.sound p hn
  have hbefore := Store.contribution?_congr (he.contributions_eq.trans hp.contributions_eq)
  rw [heq, objects_report, Store.fileOf?_congr (hr.contribution?_eq c), hobjects,
    Store.fileOf?_addContribution, Store.fileOf?_congr (hbefore c)]

/-- What comes in with the namespace of the file keeps the store in step. -/
theorem inStep_ingest (h : t.objects.Settled) (hs : t.objects.InStep) (p : PreparedDeclaration)
    (hn : (t.ingest p).2.objects.nextId ≤ UInt32.size)
    (hfile : ∀ ns ∈ t.objects.fileOf? p.declaration.contributor, ns = p.ns) :
    (t.ingest p).2.objects.InStep := by
  have hfiled : (t.ingest p).2.objects.fileOf? p.declaration.contributor = some p.ns := by
    rw [fileOf?_ingest h p hn, if_pos rfl]
    cases hc : t.objects.fileOf? p.declaration.contributor with
    | none => rfl
    | some ns => rw [Option.getD_some, hfile ns hc]
  have hkept : ∀ c ns, t.objects.fileOf? c = some ns →
      (t.ingest p).2.objects.fileOf? c = some ns := by
    intro c ns hc
    rw [fileOf?_ingest h p hn, hc]
    split <;> rfl
  obtain ⟨-, t', record, hadds, heq⟩ := settled_ingest h p hn
  intro id o ns ho hns
  rw [heq, objects_report] at ho
  obtain ⟨o', ho', hb⟩ := (relinked_of_adds hadds).object?_bare ho
  rw [← RegistryObject.contributor_eq_of_bare_eq hb]
  rw [← RegistryObject.ns?_eq_of_bare_eq hb] at hns
  rcases object?_stored h.sound p hn ho' with hold | ⟨d, rfl, -⟩ | ⟨d, children, rfl, -⟩ | ⟨e, rfl⟩
  · exact hkept _ ns (hs id o' ns hold hns)
  · cases hns
    exact hfiled
  · cases hns
    exact hfiled
  · cases hns

theorem inStep_ingestAll (h : t.objects.Settled) (hs : t.objects.InStep)
    (σ : Strategy) (ps : List PreparedDeclaration)
    (hprepared : ∀ p ∈ ps, σ.namespaces.find? p.declaration.contributor = some p.ns)
    (hn : (t.ingestAll ps).objects.nextId ≤ UInt32.size)
    (hfile : ∀ p ∈ ps, ∀ ns ∈ t.objects.fileOf? p.declaration.contributor, ns = p.ns) :
    (t.ingestAll ps).objects.InStep := by
  induction ps generalizing t with
  | nil => exact hs
  | cons p ps ih =>
    have hn' := (nextId_le_ingestAll (t.ingest p).2 ps).trans hn
    refine ih (settled_ingest h p hn').1 (inStep_ingest h hs p hn' (hfile p List.mem_cons_self))
      (fun q hq => hprepared q (List.mem_cons_of_mem _ hq)) hn fun q hq ns hns => ?_
    rw [fileOf?_ingest h p hn'] at hns
    split at hns
    · rename_i hc
      -- the same contributor, so the same namespace
      have hsame := hprepared p List.mem_cons_self
      rw [hc, hprepared q (List.mem_cons_of_mem _ hq)] at hsame
      cases hns
      cases hfirst : t.objects.fileOf? q.declaration.contributor with
      | none => exact (Option.some.inj hsame).symm
      | some ns => exact hfile q (List.mem_cons_of_mem _ hq) ns hfirst
    · exact hfile q (List.mem_cons_of_mem _ hq) ns hns

end Transaction

/-! ## Whole runs -/

theorem Registry.objects_remove {r : Registry} (h : r.objects.Settled) (hb : r.objects.Balanced)
    (c : ContributorId) : (r.remove c).2.objects = r.objects ∨
      Store.Without c r.objects (r.remove c).2.objects := by
  by_cases hanswer : (r.remove c).1 = .ok true
  · exact .inr (without_remove h hb hanswer)
  · left
    have hleaves := (Write.remove c).leaves_perform r
    rw [Write.transaction?] at hleaves
    split at hleaves
    · exact hleaves.1
    · rw [answer_remove, if_neg ‹_›] at hanswer
      have hunknown : r.begin.objects.hasContribution c = false :=
        Bool.eq_false_iff.2 fun hc => hanswer (congrArg Except.ok hc)
      rw [Transaction.removeContributor_of_unknown hunknown] at hleaves
      exact hleaves.1

namespace Write

variable {r : Registry} {w : Write}

/-- For the contributors of what the write brings, the host still names the namespaces in which
their contributions are filed. -/
def Agrees (r : Registry) (w : Write) : Prop :=
  ∀ d ∈ w.declared r, ∀ ns ∈ r.strategy.namespaces.find? d.contributor,
    ∀ filed ∈ r.objects.fileOf? d.contributor, filed = ns

theorem inStep_perform (h : r.objects.Settled) (hb : r.objects.Balanced) (hs : r.objects.InStep)
    (hagrees : w.Agrees r) (hn : (w.perform r).objects.nextId ≤ UInt32.size) :
    (w.perform r).objects.InStep := by
  by_cases hw : ∃ c, w = .remove c
  · obtain ⟨c, rfl⟩ := hw
    obtain heq | hwithout := Registry.objects_remove h hb c
    · show (r.remove c).2.objects.InStep
      rw [heq]
      exact hs
    · exact hs.without hwithout
  · obtain ⟨t, hobjects, htaken⟩ := objects_perform (not_exists.1 hw)
    have hprepared : ∀ p ∈ (w.declared r).filterMap r.strategy.prepare,
        p.declaration ∈ w.declared r ∧
          r.strategy.namespaces.find? p.declaration.contributor = some p.ns := by
      intro p hp
      obtain ⟨d, hd, hp⟩ := List.mem_filterMap.1 hp
      obtain ⟨ns, hns, rfl⟩ := Option.map_eq_some_iff.1 hp
      exact ⟨hd, hns⟩
    rw [htaken] at hn ⊢
    rw [← hobjects] at h hs
    refine Transaction.inStep_ingestAll h hs r.strategy _ (fun p hp => (hprepared p hp).2) hn
      fun p hp filed hfiled => ?_
    obtain ⟨hd, hns⟩ := hprepared p hp
    rw [hobjects] at hfiled
    exact hagrees _ hd p.ns hns filed hfiled

end Write

namespace Registry

open Cache (plainDigest)

variable {digest : DigestFunction} {r₀ r r' : Registry} {ns : String}

/-! ## What the questions answer -/

theorem contributionsIn_eq (h : r.objects.Listed) (ns : String) :
    r.contributionsIn ns = r.objects.contributions.filter (·.ns = ns) := by
  have hfound : ∀ k ∈ r.objects.contributions.filter (·.ns = ns),
      r.objects.contribution? k.contributor = some k := fun k hk =>
    h.contribution?_of_mem (List.mem_of_mem_filter hk)
  rw [contributionsIn, Store.contributorsIn, List.filterMap_map]
  exact (List.filterMap_congr hfound).trans List.filterMap_some

theorem pointHandle_injective (source : Source) : Function.Injective (PointHandle.mk source) :=
  fun _ _ heq => by
    cases heq
    rfl

theorem extensionHandle_injective (source : Source) :
    Function.Injective (ExtensionHandle.mk source) := fun _ _ heq => by
  cases heq
  rfl

theorem pointsIn_eq (h : r.objects.Balanced) (ns : String) :
    r.pointsIn ns = (r.objects.filed .point ns).map (PointHandle.mk .live) := by
  rw [pointsIn, contributionsIn_eq h.listed]
  refine congrArg _ (List.filter_eq_self.2 fun id hid => ?_)
  obtain ⟨o, ho, hkind, -⟩ := (h.mem_filed_iff .point nofun).1 hid
  cases o with
  | point p => rw [Store.point?, ho]; rfl
  | extension e => cases hkind
  | element e => cases hkind

theorem linkedIn_eq (h : r.objects.Listed) (ns : String) :
    r.linkedIn ns = (r.objects.filed .extension ns).filter r.objects.isLinked := by
  rw [linkedIn, contributionsIn_eq h]
  rfl

theorem mem_pointsIn_iff (h : r.objects.Balanced) {handle : PointHandle} :
    handle ∈ r.pointsIn ns ↔ handle.source = .live ∧
      ∃ p, r.objects.point? handle.id = some p ∧ r.objects.fileOf? p.contributor = some ns := by
  have hmap : handle ∈ r.pointsIn ns ↔
      handle.source = .live ∧ handle.id ∈ r.objects.filed .point ns := by
    rw [pointsIn_eq h, List.mem_map]
    constructor
    · rintro ⟨id, hid, rfl⟩
      exact ⟨rfl, hid⟩
    · rintro ⟨hlive, hid⟩
      exact ⟨handle.id, hid, by rw [← hlive]⟩
  rw [hmap, h.mem_filed_iff .point nofun]
  refine and_congr_right fun _ => ?_
  constructor
  · rintro ⟨o, ho, hkind, hfile⟩
    cases o with
    | point p => exact ⟨p, Store.point?_eq_some_iff.2 ho, hfile⟩
    | extension e => cases hkind
    | element e => cases hkind
  · rintro ⟨p, hp, hfile⟩
    exact ⟨.point p, Store.point?_eq_some_iff.1 hp, rfl, hfile⟩

theorem mem_linkedIn_iff (h : r.objects.Settled) (hb : r.objects.Balanced) {id : ObjectId} :
    id ∈ r.linkedIn ns ↔ ∃ e q, r.objects.extension? id = some e ∧ r.objects.HasLink id q ∧
      r.objects.fileOf? e.contributor = some ns := by
  rw [linkedIn_eq hb.listed, List.mem_filter, hb.mem_filed_iff .extension nofun,
    h.isLinked_iff]
  constructor
  · rintro ⟨⟨o, ho, hkind, hfile⟩, q, hlink⟩
    cases o with
    | extension e => exact ⟨e, q, Store.extension?_eq_some_iff.2 ho, hlink, hfile⟩
    | point p => cases hkind
    | element e => cases hkind
  · rintro ⟨e, q, he, hlink, hfile⟩
    exact ⟨⟨.extension e, Store.extension?_eq_some_iff.1 he, rfl, hfile⟩, q, hlink⟩

theorem mem_extensionsIn_iff {handle : ExtensionHandle} : handle ∈ r.extensionsIn ns ↔
    handle.source = .live ∧ handle.id ∈ r.linkedIn ns := by
  rw [extensionsIn, List.mem_map]
  constructor
  · rintro ⟨id, hid, rfl⟩
    exact ⟨rfl, hid⟩
  · rintro ⟨hlive, hid⟩
    exact ⟨handle.id, hid, by rw [← hlive]⟩

/-- Questions by namespace are answered by the namespaces that points and extensions carry. -/
structure SortsByNamespace (r : Registry) : Prop where
  points : ∀ h ns, h ∈ r.pointsIn ns ↔
    h.source = .live ∧ ∃ p, r.objects.point? h.id = some p ∧ p.ns = ns
  extensions : ∀ h ns, h ∈ r.extensionsIn ns ↔ h.source = .live ∧
    ∃ e q, r.objects.extension? h.id = some e ∧ r.objects.HasLink h.id q ∧ e.ns = ns

theorem sortsByNamespace_of_inStep (h : r.objects.Settled) (hb : r.objects.Balanced)
    (hs : r.objects.InStep) : r.SortsByNamespace where
  points handle ns := by
    rw [mem_pointsIn_iff hb]
    refine and_congr_right fun _ => exists_congr fun p => and_congr_right fun hp => ?_
    have hfile : r.objects.fileOf? p.contributor = some p.ns :=
      hs handle.id (.point p) p.ns (Store.point?_eq_some_iff.1 hp) rfl
    rw [hfile, Option.some.injEq]
  extensions handle ns := by
    rw [mem_extensionsIn_iff, mem_linkedIn_iff h hb]
    refine and_congr_right fun _ => exists₂_congr fun e q => and_congr_right fun he =>
      and_congr_right fun _ => ?_
    have hfile : r.objects.fileOf? e.contributor = some e.ns :=
      hs handle.id (.extension e) e.ns (Store.extension?_eq_some_iff.1 he) rfl
    rw [hfile, Option.some.injEq]

/-! ## Steady hosts -/

/-- A step that changes nothing but the mark, or a write for whose contributors the host still names
the namespaces in which their contributions are filed. -/
inductive SteadyStep (digest : DigestFunction) : Registry → Registry → Prop
  | write (r : Registry) (w : Write) (h : w.Agrees r) : SteadyStep digest r (w.perform r)
  | other {r r' : Registry} (h : Succeeds digest r r') (b : Bool)
      (hmark : r'.objects = r.objects.mark b) : SteadyStep digest r r'

/-- Any number of such steps. In between the host may say what it likes. -/
def SteadySuccession (digest : DigestFunction) (r r' : Registry) : Prop :=
  Relation.ReflTransGen (SteadyStep digest) r r'

theorem SteadySuccession.succession (h : SteadySuccession digest r r') :
    Succession digest r r' := by
  refine Relation.ReflTransGen.mono (fun a b hstep => ?_) _ _ h
  cases hstep with
  | write w hagrees => exact .continues (.moment (.turn (.write a w)))
  | other hsucceeds b hmark => exact hsucceeds

theorem SteadySuccession.inStep (hempty : r₀.objects = .empty) (h : SteadySuccession digest r₀ r)
    (hn : r.objects.nextId ≤ UInt32.size) : r.objects.InStep := by
  induction h with
  | refl =>
    rw [hempty]
    exact Store.inStep_empty
  | tail hrun hstep ih =>
    cases hstep with
    | write w hagrees =>
      have hn' := (w.nextId_le_perform _).trans hn
      obtain ⟨hw, hb⟩ := (SteadySuccession.succession hrun).balanced hempty hn'
      exact w.inStep_perform hw.settled hb (ih hn') hagrees hn
    | other hsucceeds b hmark =>
      rw [hmark]
      exact (ih (hsucceeds.nextId_le hn)).mark b

/-- In whatever comes after an empty registry, the points of a namespace are the live points whose
contributor's contribution is filed in it, and its extensions the linked ones, each once. Under a
steady host they are those that carry the namespace. -/
theorem filed_of_succession (hempty : r₀.objects = .empty) (h : Succession digest r₀ r)
    (hn : r.objects.nextId ≤ UInt32.size) :
    (∀ ns, (r.pointsIn ns).Nodup ∧ (r.extensionsIn ns).Nodup ∧
      (∀ h, h ∈ r.pointsIn ns ↔ h.source = .live ∧
        ∃ p, r.objects.point? h.id = some p ∧ r.objects.fileOf? p.contributor = some ns) ∧
      ∀ h, h ∈ r.extensionsIn ns ↔ h.source = .live ∧ ∃ e q, r.objects.extension? h.id = some e ∧
        r.objects.HasLink h.id q ∧ r.objects.fileOf? e.contributor = some ns) ∧
    (SteadySuccession digest r₀ r → r.SortsByNamespace) := by
  obtain ⟨hw, hb⟩ := h.balanced hempty hn
  refine ⟨fun ns => ⟨?_, ?_, fun _ => mem_pointsIn_iff hb, fun _ => ?_⟩, fun hsteady => ?_⟩
  · rw [pointsIn_eq hb]
    exact (hb.nodup_filed .point ns).map (pointHandle_injective .live)
  · rw [extensionsIn, linkedIn_eq hb.listed]
    exact ((hb.nodup_filed .extension ns).filter _).map (extensionHandle_injective .live)
  · rw [mem_extensionsIn_iff, mem_linkedIn_iff hw.settled hb]
  · exact sortsByNamespace_of_inStep hw.settled hb (hsteady.inStep hempty hn)

/-- The linked sample once the host has moved the owner of the point to another namespace. -/
def sampleMoving : Registry :=
  { sampleLinked with strategy :=
    { namespaces := sampleLinked.strategy.namespaces.register ⟨1⟩ "app" } }

/-- The owner then brings another point, and an extension for the first one. -/
def sampleMoved : Registry :=
  (Write.add {
    contributor := ⟨1⟩
    points := [{ localId := "bar" }]
    extensions := [{ localId := some "save", target := "ui.menu" }] }).perform sampleMoving

theorem steady_sampleLinked : SteadySuccession plainDigest sample sampleLinked :=
  (Relation.ReflTransGen.single (.write _ _ (by unfold Write.Agrees; decide +kernel))).tail
    (.write _ _ (by unfold Write.Agrees; decide +kernel))

theorem succession_sampleMoved : Succession plainDigest sample sampleMoved :=
  (steady_sampleLinked.succession.tail (.continues (.moment (.turn (.host _ _))))).tail
    (.continues (.moment (.turn (.write _ _))))

theorem filed_sampleMoved :
    ⟨.live, ⟨2⟩⟩ ∈ sampleMoved.pointsIn "ui" ∧ (sampleMoved.extensionsIn "ui").Nodup ∧
    ⟨.live, ⟨1⟩⟩ ∈ sampleLinked.pointsIn "ui" ∧
    ⟨.live, ⟨0⟩⟩ ∈ sampleLinked.extensionsIn "tools" := by
  obtain ⟨hfiled, -⟩ := filed_of_succession rfl succession_sampleMoved (by decide +kernel)
  obtain ⟨-, hsteady⟩ := filed_of_succession rfl steady_sampleLinked.succession (by decide +kernel)
  have hsorts := hsteady steady_sampleLinked
  obtain ⟨-, hnodup, hpoints, -⟩ := hfiled "ui"
  have hbar : (sampleMoved.objects.point? ⟨2⟩).any fun p =>
      sampleMoved.objects.fileOf? p.contributor = some "ui" := by decide +kernel
  have hmenu : (sampleLinked.objects.point? ⟨1⟩).any fun p => p.ns = "ui" ∧ ⟨0⟩ ∈ p.children := by
    decide +kernel
  have hextension : (sampleLinked.objects.extension? ⟨0⟩).any (·.ns = "tools") := by decide +kernel
  obtain ⟨bar, hbar, hfile⟩ := (Option.any_eq_true _ _).1 hbar
  obtain ⟨menu, hmenu, hshows⟩ := (Option.any_eq_true _ _).1 hmenu
  obtain ⟨e, he, hns⟩ := (Option.any_eq_true _ _).1 hextension
  obtain ⟨hui, hlink⟩ := of_decide_eq_true hshows
  exact ⟨(hpoints _).2 ⟨rfl, bar, hbar, of_decide_eq_true hfile⟩, hnodup,
    (hsorts.points _ _).2 ⟨rfl, menu, hmenu, hui⟩,
    (hsorts.extensions _ _).2 ⟨rfl, e, _, he, ⟨menu, hmenu, hlink⟩, of_decide_eq_true hns⟩⟩

/-- What the owner brings after the move is live in the new namespace and listed in the old one. -/
theorem misfiled_sampleMoved : Succession plainDigest sample sampleMoved ∧
    (sampleMoved.objects.point? ⟨2⟩).any (·.ns = "app") ∧
    (sampleMoved.objects.extension? ⟨3⟩).any (·.ns = "app") ∧
    sampleMoved.objects.isLinked ⟨3⟩ = true ∧
    sampleMoved.pointsIn "app" = [] ∧ sampleMoved.pointsIn "ui" = [⟨.live, ⟨1⟩⟩, ⟨.live, ⟨2⟩⟩] ∧
    sampleMoved.extensionsIn "app" = [] ∧ sampleMoved.extensionsIn "ui" = [⟨.live, ⟨3⟩⟩] ∧
    ¬sampleMoved.SortsByNamespace := by
  refine ⟨succession_sampleMoved, by decide +kernel, by decide +kernel, by decide +kernel,
    by decide +kernel, by decide +kernel, by decide +kernel, by decide +kernel, fun hsorts => ?_⟩
  have hlive : (sampleMoved.objects.point? ⟨2⟩).any (·.ns = "app") := by decide +kernel
  obtain ⟨p, hp, hns⟩ := (Option.any_eq_true _ _).1 hlive
  have hmem := (hsorts.points ⟨.live, ⟨2⟩⟩ "app").2 ⟨rfl, p, hp, of_decide_eq_true hns⟩
  exact absurd hmem (by decide +kernel)

end Registry

end PluginRegistry
