import PluginRegistry.Event
import PluginRegistry.Proofs.Spans

/-!
# Events seen through a filter

A listener may ask for one namespace alone. Its event then answers for that namespace what the
event of the whole write answers, and nothing for others (`ChangeEvent.restricted_of_handed`).
Nothing else has a part in it: two writes with the same entry there cannot be told apart, whatever
they did elsewhere (`ChangeEvent.Alike`).

A view is known by its change and by what its snapshot answers, its `Sight`. Two events are alike
if they answer every question with the same sights.
-/

namespace PluginRegistry

/-! ## Sights -/

/-- A change, with the look-up its objects are found by. -/
structure Sight where
  delta : ExtensionDelta
  look : Resolver

namespace Sight

def pointId? (s : Sight) : Option String :=
  match s.look s.delta.point .point with
  | .ok (.point p) => some p.uniqueId
  | _ => none

def extensionId? (s : Sight) : Option String :=
  match s.look s.delta.extension .extension with
  | .ok (.extension e) => e.uniqueId?
  | _ => none

end Sight

def DeltaView.sight (look : Resolvers) (v : DeltaView) : Sight :=
  ⟨v.delta, look (.snapshot v.snapshot)⟩

namespace DeltaView

variable (look : Resolvers) (v : DeltaView)

theorem toOption_uniqueId :
    (v.point.uniqueId look).toOption = (v.sight look).pointId? := by
  simp only [PointHandle.uniqueId, PointHandle.object, Resolver.object, point, Sight.pointId?,
    sight]
  cases look (.snapshot v.snapshot) v.delta.point .point with
  | ok object => cases object <;> rfl
  | error refusal => cases refusal <;> rfl

theorem toOption_uniqueId? :
    (v.extension.uniqueId? look).toOption.join = (v.sight look).extensionId? := by
  simp only [ExtensionHandle.uniqueId?, ExtensionHandle.object, Resolver.object, extension,
    Sight.extensionId?, sight]
  cases look (.snapshot v.snapshot) v.delta.extension .extension with
  | ok object => cases object <;> rfl
  | error refusal => cases refusal <;> rfl

end DeltaView

/-- What can be learnt from an entry: its changes, and what its snapshot answers. -/
def NamespaceDelta.shown (look : Resolvers) (d : NamespaceDelta) :
    List ExtensionDelta × Option Resolver :=
  (d.deltas, d.snapshot.map fun id => look (.snapshot id))

def Sight.ofShown : List ExtensionDelta × Option Resolver → List Sight
  | (deltas, some look) => deltas.map (⟨·, look⟩)
  | (_, none) => []

theorem NamespaceDelta.sights_views (look : Resolvers) (d : NamespaceDelta) :
    d.views.map (·.sight look) = Sight.ofShown (d.shown look) := by
  obtain ⟨ns, deltas, snapshot⟩ := d
  cases snapshot with
  | none => rfl
  | some id => simp [views, shown, Sight.ofShown, DeltaView.sight, Function.comp_def]

namespace DeltaMap

variable {m : DeltaMap}

/-- The map is handed out by a tracker, which was called in any order. -/
def Handed (m : DeltaMap) : Prop :=
  ∃ (snapshots : Snapshots) (calls : List DeltaTracker.Call),
    m = (DeltaTracker.Session.performAll { snapshots } calls).finished

theorem Handed.nodup (h : m.Handed) : m.namespaces.Nodup := by
  obtain ⟨snapshots, calls, rfl⟩ := h
  rw [DeltaTracker.Session.finished_eq (DeltaTracker.Session.follows_performAll snapshots calls)]
  simpa [DeltaTracker.Span.map, DeltaTracker.Span.namespaces, namespaces, Function.comp_def] using
    nodup_eraseDups _

/-- The entry of a namespace, as far as can be learnt. -/
def shown? (m : DeltaMap) (look : Resolvers) (ns : String) :
    Option (List ExtensionDelta × Option Resolver) :=
  (m.find? ns).map (·.shown look)

theorem mem_namespaces_iff (look : Resolvers) {ns : String} :
    ns ∈ m.namespaces ↔ (m.shown? look ns).isSome := by
  rw [shown?, Option.isSome_map]
  exact contains_iff.symm

theorem find?_ns (h : m.namespaces.Nodup) {entry : NamespaceDelta} (hentry : entry ∈ m.entries) :
    m.find? entry.ns = some entry := by
  obtain ⟨found, hfound⟩ := Option.isSome_iff_exists.1 (contains_iff.2 (List.mem_map_of_mem hentry))
  rw [hfound]
  have hns : found.ns = entry.ns := by simpa using List.find?_some hfound
  exact congrArg some (List.inj_on_of_nodup_map h (List.mem_of_find?_eq_some hfound) hentry hns)

end DeltaMap

namespace ChangeEvent

variable {m m' : DeltaMap} {look look' : Resolvers} {f : String}

/-! ## The queries by name -/

theorem viewsFor_eq (e : ChangeEvent) (look : Resolvers) (ns pointLocalId : String) :
    e.viewsFor look ns pointLocalId = (e.viewsIn ns).filter fun v =>
      (v.sight look).pointId? = some (Name.qualify ns pointLocalId) := by
  refine List.filter_congr fun v _ => ?_
  simp only [← DeltaView.toOption_uniqueId]
  cases v.point.uniqueId look <;> simp [Except.toOption]

theorem view?_eq (e : ChangeEvent) (look : Resolvers)
    (ns pointLocalId extensionId : String) :
    e.view? look ns pointLocalId extensionId = (e.viewsFor look ns pointLocalId).find? fun v =>
      (v.sight look).extensionId? = some extensionId := by
  refine congrArg (List.find? · _) (funext fun v => ?_)
  simp only [← DeltaView.toOption_uniqueId?]
  cases v.extension.uniqueId? look with
  | ok uniqueId => exact decide_eq_decide.2 Iff.rfl
  | error refusal => simp [Except.toOption]

/-! ## The event of a whole write -/

theorem namespaces_none (m : DeltaMap) : (mk m none).namespaces = m.namespaces := by
  simp [namespaces, shows]

theorem viewsIn_none (m : DeltaMap) (ns : String) :
    (mk m none).viewsIn ns = ((m.find? ns).map NamespaceDelta.views).getD [] := by
  unfold viewsIn
  cases m.find? ns <;> rfl

theorem views_none (h : m.namespaces.Nodup) :
    (mk m none).views = m.namespaces.flatMap (mk m none).viewsIn := by
  rw [DeltaMap.namespaces, List.flatMap_map]
  refine List.flatMap_congr fun entry hentry => ?_
  rw [viewsIn_none, DeltaMap.find?_ns h hentry]
  rfl

/-! ## The event of one namespace -/

theorem namespaces_some (h : m.namespaces.Nodup) (f : String) :
    (mk m (some f)).namespaces = if f ∈ m.namespaces then [f] else [] := by
  have hfilter : (mk m (some f)).namespaces = m.namespaces.filter (· = f) :=
    List.filter_congr fun ns _ => decide_eq_decide.2 eq_comm
  rw [hfilter, List.filter_eq]
  split
  · rename_i hf
    rw [List.count_eq_one_of_mem h hf]
    rfl
  · rename_i hf
    rw [List.count_eq_zero_of_not_mem hf]
    rfl

theorem viewsIn_some (m : DeltaMap) (f ns : String) :
    (mk m (some f)).viewsIn ns = if ns = f then (mk m none).viewsIn ns else [] := by
  unfold viewsIn
  by_cases h : ns = f
  · simp [shows, h]
  · simp [shows, h, Ne.symm h]

theorem viewsFor_some (m : DeltaMap) (look : Resolvers) (f ns pointLocalId : String) :
    (mk m (some f)).viewsFor look ns pointLocalId =
      if ns = f then (mk m none).viewsFor look ns pointLocalId else [] := by
  rw [viewsFor_eq, viewsFor_eq, viewsIn_some]
  split <;> rfl

theorem view?_some (m : DeltaMap) (look : Resolvers)
    (f ns pointLocalId extensionId : String) :
    (mk m (some f)).view? look ns pointLocalId extensionId =
      if ns = f then (mk m none).view? look ns pointLocalId extensionId else none := by
  rw [view?_eq, view?_eq, viewsFor_some]
  split <;> rfl

/-! ## Events that cannot be told apart -/

/-- Two events answer every question with the same sights. -/
structure Alike (e e' : ChangeEvent) (look look' : Resolvers) : Prop where
  namespaces : e.namespaces = e'.namespaces
  views : e.views.map (·.sight look) = e'.views.map (·.sight look')
  viewsIn : ∀ ns, (e.viewsIn ns).map (·.sight look) = (e'.viewsIn ns).map (·.sight look')
  viewsFor : ∀ ns pointLocalId, (e.viewsFor look ns pointLocalId).map (·.sight look) =
    (e'.viewsFor look' ns pointLocalId).map (·.sight look')
  view? : ∀ ns pointLocalId extensionId,
    (e.view? look ns pointLocalId extensionId).map (·.sight look) =
      (e'.view? look' ns pointLocalId extensionId).map (·.sight look')

theorem sights_viewsFor (e : ChangeEvent) (look : Resolvers)
    (ns pointLocalId : String) :
    (e.viewsFor look ns pointLocalId).map (·.sight look) =
      ((e.viewsIn ns).map (·.sight look)).filter
        (·.pointId? = some (Name.qualify ns pointLocalId)) := by
  rw [viewsFor_eq, List.filter_map]
  rfl

theorem sight_view? (e : ChangeEvent) (look : Resolvers)
    (ns pointLocalId extensionId : String) :
    (e.view? look ns pointLocalId extensionId).map (·.sight look) =
      ((e.viewsFor look ns pointLocalId).map (·.sight look)).find?
        (·.extensionId? = some extensionId) := by
  rw [view?_eq, List.find?_map]
  rfl

theorem Alike.of_viewsIn {e e' : ChangeEvent} (hnamespaces : e.namespaces = e'.namespaces)
    (hviews : e.views.map (·.sight look) = e'.views.map (·.sight look'))
    (hviewsIn : ∀ ns, (e.viewsIn ns).map (·.sight look) = (e'.viewsIn ns).map (·.sight look')) :
    e.Alike e' look look' where
  namespaces := hnamespaces
  views := hviews
  viewsIn := hviewsIn
  viewsFor ns pointLocalId := by rw [sights_viewsFor, sights_viewsFor, hviewsIn]
  view? ns pointLocalId extensionId := by
    rw [sight_view?, sight_view?, sights_viewsFor, sights_viewsFor, hviewsIn]

theorem sights_viewsIn (m : DeltaMap) (look : Resolvers) (ns : String) :
    ((mk m none).viewsIn ns).map (·.sight look) =
      ((m.shown? look ns).map Sight.ofShown).getD [] := by
  rw [viewsIn_none, DeltaMap.shown?]
  cases m.find? ns with
  | none => rfl
  | some d => exact d.sights_views look

/-- Through a filter nothing but the entry of its namespace is seen. -/
theorem alike_of_shown (hm : m.namespaces.Nodup) (hm' : m'.namespaces.Nodup)
    (h : m.shown? look f = m'.shown? look' f) :
    (mk m (some f)).Alike (mk m' (some f)) look look' := by
  have hviewsIn : ∀ ns, ((mk m (some f)).viewsIn ns).map (·.sight look) =
      ((mk m' (some f)).viewsIn ns).map (·.sight look') := by
    intro ns
    rw [viewsIn_some, viewsIn_some]
    split
    · rename_i hns
      rw [hns, sights_viewsIn, sights_viewsIn, h]
    · rfl
  refine .of_viewsIn ?_ (hviewsIn f) hviewsIn
  rw [namespaces_some hm, namespaces_some hm']
  have hkey : f ∈ m.namespaces ↔ f ∈ m'.namespaces := by
    rw [DeltaMap.mem_namespaces_iff look, h, DeltaMap.mem_namespaces_iff look']
  exact if_congr hkey rfl rfl

/-! ## The restriction -/

/-- An event for one namespace is the part of the event of the whole write that is there. -/
structure Restricted (m : DeltaMap) (look : Resolvers) (f : String) : Prop where
  namespaces : (mk m (some f)).namespaces = if f ∈ m.namespaces then [f] else []
  views : (mk m (some f)).views = (mk m none).viewsIn f
  /-- By namespace it answers the same there, and nothing elsewhere. -/
  viewsIn : ∀ ns, (mk m (some f)).viewsIn ns = if ns = f then (mk m none).viewsIn ns else []
  viewsFor : ∀ ns pointLocalId, (mk m (some f)).viewsFor look ns pointLocalId =
    if ns = f then (mk m none).viewsFor look ns pointLocalId else []
  view? : ∀ ns pointLocalId extensionId, (mk m (some f)).view? look ns pointLocalId extensionId =
    if ns = f then (mk m none).view? look ns pointLocalId extensionId else none
  /-- The event of the whole write goes through its namespaces. -/
  whole : (mk m none).views = (mk m none).namespaces.flatMap (mk m none).viewsIn
  /-- With and without a filter, the changes at a point are those whose point is found under the
  name, -/
  atPoint : ∀ filter ns pointLocalId, (mk m filter).viewsFor look ns pointLocalId =
    ((mk m filter).viewsIn ns).filter fun v =>
      (v.sight look).pointId? = some (Name.qualify ns pointLocalId)
  /-- and the change of an extension is the first of them whose extension is. -/
  ofExtension : ∀ filter ns pointLocalId extensionId,
    (mk m filter).view? look ns pointLocalId extensionId =
      ((mk m filter).viewsFor look ns pointLocalId).find? fun v =>
        (v.sight look).extensionId? = some extensionId
  /-- Another map with the same entry cannot be told apart. -/
  alike : ∀ (m' : DeltaMap) (look' : Resolvers), m'.Handed →
    m.shown? look f = m'.shown? look' f → (mk m (some f)).Alike (mk m' (some f)) look look'

/-- Whatever a tracker hands out, whatever is asked, and whatever snapshots are closed by then. -/
theorem restricted_of_handed (h : m.Handed) (look : Resolvers) (f : String) :
    Restricted m look f where
  namespaces := namespaces_some h.nodup f
  views := (viewsIn_some m f f).trans (if_pos rfl)
  viewsIn := viewsIn_some m f
  viewsFor := viewsFor_some m look f
  view? := view?_some m look f
  whole := by rw [namespaces_none, views_none h.nodup]
  atPoint filter := viewsFor_eq ⟨m, filter⟩ look
  ofExtension filter := view?_eq ⟨m, filter⟩ look
  alike _ _ h' hshown := alike_of_shown h.nodup h'.nodup hshown

/-- Finds the point `core.widgets` under every id, and nothing else. -/
def sampleLook : Resolver
  | id, .point => .ok (.point
      { id, uniqueId := "core.widgets", label := "Widgets", schema := none, ns := "core"
        owner := ⟨1⟩, contributor := ⟨1⟩, children := [] })
  | id, kind => .error (.notFound id kind)

theorem restricted_sampleCalls :
    let m := (DeltaTracker.Session.performAll {} DeltaTracker.Session.sampleCalls).finished
    let m' := (DeltaTracker.Session.performAll {}
      [.start true, .record "core" DeltaTracker.Session.sampleDelta]).finished
    m.namespaces = ["ui", "core"] ∧ (mk m (some "core")).namespaces = ["core"] ∧
      (mk m (some "core")).viewsFor (fun _ => sampleLook) "core" "widgets" =
        [⟨DeltaTracker.Session.sampleDelta, ⟨0⟩⟩] ∧
      (mk m (some "core")).Alike (mk m' (some "core")) (fun _ => sampleLook)
        fun _ => sampleLook := by
  intro m m'
  have h := restricted_of_handed (m := m) ⟨.empty, _, rfl⟩ (fun _ => sampleLook) "core"
  refine ⟨rfl, h.namespaces.trans rfl, (h.viewsFor "core" "widgets").trans ?_, ?_⟩
  · decide
  · exact h.alike m' (fun _ => sampleLook) ⟨.empty, _, rfl⟩ rfl

end ChangeEvent

end PluginRegistry
