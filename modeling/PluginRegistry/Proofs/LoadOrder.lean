import PluginRegistry.Proofs.Outcomes
import PluginRegistry.Proofs.Ownership
import PluginRegistry.Proofs.Placement
import PluginRegistry.Proofs.Presents

/-!
# The order in which declarations are loaded

An empty registry is loaded with declarations, one by one or several at once. The store it ends
with presents them in the order of loading; which extensions are linked to which point is a matter
of names alone. So another order, or other groups, lead to an equivalent store
(`Load.equivalent_of_perm`).
-/

namespace PluginRegistry

namespace Store

variable {s s' : Store}

/-! ## Equivalent stores -/

/-- Every point of `s` is in `s'` with as many linked extensions of each view, every orphan bucket
of `s` is in `s'` with as many extensions of each view, and no point of `s` has a bucket. -/
structure Equivalent (s s' : Store) : Prop where
  points : ∀ id p, s.point? id = some p → ∃ id' p', s'.point? id' = some p' ∧ p'.view = p.view ∧
    (s.views p.children).Perm (s'.views p'.children)
  orphans : ∀ u bucket, s.orphansOf? u = some bucket → ∃ bucket', s'.orphansOf? u = some bucket' ∧
    (s.views bucket).Perm (s'.views bucket')
  adopted : ∀ id p, s.point? id = some p → s.orphansOf? p.uniqueId = none

theorem Settled.children_eq (h : s.Settled) (hn : s.nextId ≤ UInt32.size) {id : ObjectId}
    {p : ExtensionPoint} (hp : s.point? id = some p) :
    p.children = s.targeting p.uniqueId ∧ s.orphansOf? p.uniqueId = none := by
  have hid := h.sound.point_id hp
  subst hid
  obtain ⟨hc, ho⟩ := (h.linked p.uniqueId).lit p (h.sound.pointNamed?_eq_some_iff.2 ⟨hp, rfl⟩)
    List.not_mem_nil
  exact ⟨hc.eq (lists_targeting hn _), ho⟩

theorem Settled.orphansOf?_eq_some_iff (h : s.Settled) (hn : s.nextId ≤ UInt32.size) {u : String}
    {bucket : List ObjectId} : s.orphansOf? u = some bucket ↔
      s.pointNamed? u = none ∧ bucket ≠ [] ∧ bucket = s.targeting u := by
  constructor
  · intro ho
    have hnone : s.pointNamed? u = none := by
      cases hp : s.pointNamed? u with
      | none => rfl
      | some p =>
        obtain ⟨-, hb⟩ := (h.linked u).lit p hp List.not_mem_nil
        rw [ho] at hb
        cases hb
    obtain ⟨hb, hne⟩ := (h.linked u).parked (by simp [hnone])
    rw [ho] at hb hne
    exact ⟨hnone, fun e => hne (by rw [e]), hb.eq (lists_targeting hn u)⟩
  · rintro ⟨hnone, hne, rfl⟩
    obtain ⟨hb, -⟩ := (h.linked u).parked (by simp [hnone])
    have heq := hb.eq (lists_targeting hn u)
    cases ho : s.orphansOf? u with
    | none =>
      rw [ho] at heq
      exact absurd heq.symm hne
    | some bucket =>
      rw [ho] at heq
      exact congrArg some heq

theorem Presents.views_targeting {ps : List PreparedDeclaration} (h : s.Presents ps)
    (hr : s.Rooted) (hn : s.nextId ≤ UInt32.size) (u : String) :
    s.views (s.targeting u) =
      ((ps.flatMap (·.extensions)).filter fun x => x.2.targetIn x.1.ns = u).map
        fun x => some (x.1.view x.2) := by
  obtain ⟨ids, hlists, hholds⟩ := h.extensions
  have htargeting : ids.filter (fun id => (s.extension? id).any (·.target = u)) =
      s.targeting u := by
    refine Lists.eq ⟨hlists.sorted.filter _, fun id => ?_⟩ (lists_targeting hn u)
    simp only [List.mem_filter, hlists.mem_iff, Option.any_eq_true, decide_eq_true_eq, Attached,
      List.not_mem_nil, not_false_eq_true, true_and, and_iff_right_iff_imp]
    exact fun he => he.imp fun _ => And.left
  rw [← htargeting, views]
  refine map_eq_map_of_forall₂ (List.rel_filter (fun id x hx => ?_) hholds)
    fun id x hx => hx.view hr
  obtain ⟨children, he, -⟩ := hx
  simp [he, PreparedDeclaration.extension]

theorem Presents.equivalent {ps ps' : List PreparedDeclaration} (h : s.Presents ps)
    (h' : s'.Presents ps') (hw : s.Whole) (hw' : s'.Whole) (hn : s.nextId ≤ UInt32.size)
    (hn' : s'.nextId ≤ UInt32.size) (hperm : ps.Perm ps') : s.Equivalent s' := by
  have hviews : ∀ u, (s.views (s.targeting u)).Perm (s'.views (s'.targeting u)) := by
    intro u
    rw [h.views_targeting hw.rooted hn, h'.views_targeting hw'.rooted hn']
    exact ((hperm.flatMap_right _).filter _).map _
  constructor
  · intro id p hp
    have hmem := h.mem_pointViews_iff.2 ⟨id, p, hp, rfl⟩
    rw [(hperm.flatMap_right _).mem_iff] at hmem
    obtain ⟨id', p', hp', hview⟩ := h'.mem_pointViews_iff.1 hmem
    have hname : p'.uniqueId = p.uniqueId := congrArg PointView.uniqueId hview
    refine ⟨id', p', hp', hview, ?_⟩
    rw [(hw.settled.children_eq hn hp).1, (hw'.settled.children_eq hn' hp').1, hname]
    exact hviews p.uniqueId
  · intro u bucket hb
    obtain ⟨hnone, hne, rfl⟩ := (hw.settled.orphansOf?_eq_some_iff hn).1 hb
    refine ⟨s'.targeting u, (hw'.settled.orphansOf?_eq_some_iff hn').2 ⟨?_, fun e => ?_, rfl⟩,
      hviews u⟩
    · rw [h.pointNamed?_eq_none_iff hw.settled.sound,
        ((hperm.flatMap_right _).map _).mem_iff] at hnone
      exact (h'.pointNamed?_eq_none_iff hw'.settled.sound).2 hnone
    · have hlength := (hviews u).length_eq
      rw [e, views, views, List.length_map, List.length_map] at hlength
      exact hne (List.length_eq_zero_iff.1 hlength)
  · exact fun id p hp => (hw.settled.children_eq hn hp).2

end Store

/-! ## Loading -/

/-- A declaration as a registry with this strategy takes it in; an anonymous one is not. -/
def Strategy.prepare (σ : Strategy) (d : Declaration) : Option PreparedDeclaration :=
  (σ.namespaces.find? d.contributor).map fun ns =>
    { declaration := d, ns, owner := σ.ownerOf d.contributor }

def Strategy.pointNames (σ : Strategy) (ds : List Declaration) : List String :=
  ds.flatMap fun d => match σ.namespaces.find? d.contributor with
    | none => []
    | some ns => d.points.map fun p => Name.qualify ns p.localId

/-- A call that brings declarations. -/
inductive Load
  | one (d : Declaration)
  | several (ds : List Declaration)

namespace Load

def declarations : Load → List Declaration
  | one d => [d]
  | several ds => ds

def write : Load → Write
  | one d => .add d
  | several ds => .addAll ds

def declared (loads : List Load) : List Declaration := loads.flatMap declarations

def performAll (r : Registry) (loads : List Load) : Registry :=
  Write.performAll r (loads.map write)

end Load

theorem Strategy.map_uniqueId_pointViews (σ : Strategy) (ds : List Declaration) :
    ((ds.filterMap σ.prepare).flatMap (·.pointViews)).map (·.uniqueId) = σ.pointNames ds := by
  induction ds with
  | nil => rfl
  | cons d ds ih =>
    rw [pointNames, List.flatMap_cons, ← pointNames, ← ih, List.filterMap_cons, prepare]
    cases σ.namespaces.find? d.contributor with
    | none => rfl
    | some ns =>
      simp only [Option.map_some, List.flatMap_cons, List.map_append]
      congr 1
      rw [PreparedDeclaration.pointViews, List.map_map]
      rfl

theorem Strategy.sum_size_prepare_le (σ : Strategy) (ds : List Declaration) :
    ((ds.filterMap σ.prepare).map (·.declaration.size)).sum ≤ (ds.map Declaration.size).sum := by
  induction ds with
  | nil => exact Nat.le_refl _
  | cons d ds ih =>
    rw [List.filterMap_cons, prepare, List.map_cons, List.sum_cons]
    cases σ.namespaces.find? d.contributor with
    | none => exact ih.trans (Nat.le_add_left _ _)
    | some ns => exact Nat.add_le_add_left ih _

namespace Registry

variable {r : Registry}

theorem prepareAll_eq (r : Registry) (ds : List Declaration) :
    (r.prepareAll ds).1 = ds.filterMap r.strategy.prepare := by
  induction ds generalizing r with
  | nil => rfl
  | cons d ds ih =>
    have hstrategy := (keeps_prepare r d).strategy_eq
    have hcons : (r.prepareAll (d :: ds)).1 =
        (r.prepare d).1.toList ++ ((r.prepare d).2.prepareAll ds).1 := rfl
    rw [hcons, ih, hstrategy, List.filterMap_cons, prepare, Strategy.prepare]
    cases r.strategy.namespaces.find? d.contributor <;> rfl

theorem objects_of_ingestion (hs : r.stopped = false) (ds : List Declaration) : ∃ t : Transaction,
    t.objects = r.objects ∧ ∀ r', r.Leaves (r.ingestion? ds) r' →
      r'.objects = (t.ingestAll (ds.filterMap r.strategy.prepare)).objects := by
  have hsame := sameButLog_prepareAll r ds
  rw [← prepareAll_eq]
  refine ⟨(r.prepareAll ds).2.begin, hsame.objects_eq, fun r' hleaves => ?_⟩
  unfold ingestion? at hleaves
  dsimp only at hleaves
  cases hp : (r.prepareAll ds).1 with
  | nil =>
    rw [hp] at hleaves
    exact hleaves.1.trans hsame.objects_eq.symm
  | cons p ps =>
    rw [hp, hsame.stopped_eq, hs] at hleaves
    exact hleaves.1

theorem objects_load (hs : r.stopped = false) (l : Load) : ∃ t : Transaction,
    t.objects = r.objects ∧ (l.write.perform r).objects =
      (t.ingestAll (l.declarations.filterMap r.strategy.prepare)).objects := by
  obtain ⟨t, hobjects, htaken⟩ := objects_of_ingestion hs l.declarations
  have hperform : l.write.perform r = (r.addAll l.declarations).2 := by cases l <;> rfl
  rw [hperform]
  exact ⟨t, hobjects, htaken _ (leaves_addAll r l.declarations)⟩

/-- What a registry presents after some loads, if they fit in and bring points with new names. -/
theorem presents_loads (hs : r.stopped = false) (hw : r.objects.Whole)
    {ps : List PreparedDeclaration} (hps : r.objects.Presents ps) (loads : List Load)
    (hsize : r.objects.nextId + ((Load.declared loads).map Declaration.size).sum ≤ UInt32.size)
    (hnames : (((ps ++ (Load.declared loads).filterMap r.strategy.prepare).flatMap
      (·.pointViews)).map (·.uniqueId)).Nodup) :
    (Load.performAll r loads).objects.Whole ∧
      (Load.performAll r loads).objects.nextId ≤ UInt32.size ∧
      (Load.performAll r loads).objects.Presents
        (ps ++ (Load.declared loads).filterMap r.strategy.prepare) := by
  induction loads generalizing r ps with
  | nil =>
    have hn : r.objects.nextId ≤ UInt32.size := by simpa [Load.declared] using hsize
    rw [Load.declared, List.flatMap_nil, List.filterMap_nil, List.append_nil]
    exact ⟨hw, hn, hps⟩
  | cons l loads ih =>
    have hdeclared : Load.declared (l :: loads) = l.declarations ++ Load.declared loads := rfl
    rw [hdeclared, List.map_append, List.sum_append] at hsize
    rw [hdeclared, List.filterMap_append, ← List.append_assoc] at hnames ⊢
    have hkeeps := l.write.keeps_perform r
    obtain ⟨t, hobjects, hperform⟩ := objects_load hs l
    have hnext : (l.write.perform r).objects.nextId ≤
        r.objects.nextId + (l.declarations.map Declaration.size).sum := by
      rw [hperform, ← hobjects]
      exact (t.nextId_ingestAll_le _).trans
        (Nat.add_le_add_left (r.strategy.sum_size_prepare_le l.declarations) _)
    have hn : (l.write.perform r).objects.nextId ≤ UInt32.size := by omega
    have hfirst : (((ps ++ l.declarations.filterMap r.strategy.prepare).flatMap
        (·.pointViews)).map (·.uniqueId)).Nodup := by
      rw [List.flatMap_append, List.map_append] at hnames
      exact (List.nodup_append.1 hnames).1
    have hpresents : (l.write.perform r).objects.Presents
        (ps ++ l.declarations.filterMap r.strategy.prepare) := by
      rw [hperform] at hn ⊢
      rw [← hobjects] at hw hps
      exact t.presents_ingestAll hw.settled hps _ hn hfirst
    rw [← hkeeps.strategy_eq] at hnames hpresents ⊢
    exact ih (hkeeps.stopped_eq.trans hs) (l.write.whole_perform hw hn) hpresents (by omega) hnames

end Registry

/-- An empty registry that is loaded with declarations whose points have distinct names ends with
the same points, the same links and the same orphans, however the declarations are ordered and
however they are put into calls. -/
theorem Load.equivalent_of_perm {r r' : Registry} (hempty : r.objects = .empty)
    (hempty' : r'.objects = .empty) (hs : r.stopped = false) (hs' : r'.stopped = false)
    (hstrategy : r'.strategy = r.strategy) {loads loads' : List Load}
    (hperm : (declared loads).Perm (declared loads'))
    (hnames : (r.strategy.pointNames (declared loads)).Nodup)
    (hsize : ((declared loads).map Declaration.size).sum ≤ UInt32.size) :
    (performAll r loads).objects.Equivalent (performAll r' loads').objects ∧
      (performAll r' loads').objects.Equivalent (performAll r loads).objects := by
  have hpresents : ∀ (r : Registry) (loads : List Load), r.objects = .empty → r.stopped = false →
      (r.strategy.pointNames (declared loads)).Nodup →
      ((declared loads).map Declaration.size).sum ≤ UInt32.size →
      (performAll r loads).objects.Whole ∧ (performAll r loads).objects.nextId ≤ UInt32.size ∧
        (performAll r loads).objects.Presents ((declared loads).filterMap r.strategy.prepare) := by
    intro r loads hempty hs hnames hsize
    refine Registry.presents_loads hs (hempty ▸ Store.whole_empty)
      (hempty ▸ Store.presents_empty) loads ?_ ?_
    · rw [hempty]
      simpa [Store.nextId, Store.empty] using hsize
    · rwa [List.nil_append, Strategy.map_uniqueId_pointViews]
  have hnames' : (r'.strategy.pointNames (declared loads')).Nodup := by
    rw [hstrategy]
    exact (hperm.flatMap_right _).nodup_iff.1 hnames
  have hsize' : ((declared loads').map Declaration.size).sum ≤ UInt32.size :=
    (hperm.map _).sum_nat ▸ hsize
  obtain ⟨hw, hn, hp⟩ := hpresents r loads hempty hs hnames hsize
  obtain ⟨hw', hn', hp'⟩ := hpresents r' loads' hempty' hs' hnames' hsize'
  rw [hstrategy] at hp'
  have hprepared := hperm.filterMap r.strategy.prepare
  exact ⟨hp.equivalent hp' hw hw' hn hn' hprepared, hp'.equivalent hp hw' hw hn' hn hprepared.symm⟩

open Registry (sample) in
/-- An extension is loaded before its point, or after it and in the same call. -/
theorem Load.equivalent_sampleOrders :
    let point : Declaration := { contributor := ⟨1⟩, points := [{ localId := "menu" }] }
    let extensions : Declaration := {
      contributor := ⟨2⟩
      extensions := [{ target := "ui.menu", content := [.mk "item" [] none []] },
        { target := "view" }] }
    let before := (performAll sample [.one extensions, .one point]).objects
    let after := (performAll sample [.several [point, extensions]]).objects
    (before.pointNamed? "ui.menu").map (·.children) = some [⟨0⟩] ∧
      (after.pointNamed? "ui.menu").map (·.children) = some [⟨1⟩] ∧
      before.orphansOf? "tools.view" = some [⟨2⟩] ∧ after.orphansOf? "tools.view" = some [⟨3⟩] ∧
      before.Equivalent after ∧ after.Equivalent before :=
  ⟨by decide +kernel, by decide +kernel, by decide +kernel, by decide +kernel,
    equivalent_of_perm rfl rfl rfl rfl rfl (.swap _ _ _) (by decide +kernel) (by decide +kernel)⟩

end PluginRegistry
