import PluginRegistry.Proofs.Refusals
import PluginRegistry.Proofs.Reopenings
import PluginRegistry.Proofs.Tenures

/-!
# Content read through handles

From the handle of an extension one goes down its content by `elements` and `children` and finds
the declared trees, element by element with name, value and properties
(`ElementHandle.ShowAll`). On the way up every element names the handle one came from, and going up
ends at the extension after no more steps than the element's id says: a parent has an earlier id
than its children, which is what bounds the way.

So whatever a write declares for a contributor is read back as declared at any later time, also
after the registry was stopped and opened again, until the contributor is taken out
(`Write.shows_of_opened`).
-/

namespace PluginRegistry

/-! ## What handles show -/

def ElementParent.id : ElementParent → ObjectId
  | .extension h => h.id
  | .element h => h.id

/-- What a context hangs elements below. -/
def ElementContext.above (context : ElementContext) : ElementParent :=
  match context.parentKind with
  | .extension => .extension ⟨.live, context.parent⟩
  | .element => .element ⟨.live, context.parent⟩

/-- An element answers what was declared. -/
structure Element.Answers (e : Element) (name : String) (properties : List (String × String))
    (value : Option String) : Prop where
  name_eq : e.name = name
  value_eq : e.value = value
  properties_eq : e.properties = properties
  attribute?_eq : ∀ key, e.attribute? key = (properties.find? (·.1 = key)).map (·.2)
  attributeNames_eq : e.attributeNames = properties.map (·.1)

namespace ElementHandle

/-- Going up from the element ends at an extension, after at most as many steps as its id says. -/
def Rises (look : Resolvers) (h : ElementHandle) (root : ExtensionHandle) : Prop :=
  ∀ steps, h.id.index ≤ steps → h.climb look steps = .ok root

/-- From what an element hangs below one comes to the extension. -/
def LeadsTo (look : Resolvers) (root : ExtensionHandle) : ElementParent → Prop
  | .extension e => e = root
  | .element a => a.Rises look root

mutual

/-- The handle shows an element below `above` as declared, with all below it. -/
def Shows (look : Resolvers) (root : ExtensionHandle) (above : ElementParent) (h : ElementHandle) :
    ElementDecl → Prop
  | .mk name properties value children =>
    (∃ e, h.object look = .ok e ∧ e.Answers name properties value) ∧
      h.parent look = .ok above ∧ h.Rises look root ∧ h.declaringExtension look = .ok root ∧
      ∃ hs, h.children look = .ok hs ∧ ShowAll look root (.element h) hs children

/-- One after the other the handles show elements below `above` as declared. -/
def ShowAll (look : Resolvers) (root : ExtensionHandle) (above : ElementParent)
    (hs : List ElementHandle) : List ElementDecl → Prop
  | [] => hs = []
  | e :: es => ∃ h rest, hs = h :: rest ∧ Shows look root above h e ∧
    ShowAll look root above rest es

end

end ElementHandle

/-- The handle shows an extension of a contributor in a namespace as declared, with its content. -/
structure ExtensionHandle.Shows (look : Resolvers) (c : ContributorId) (ns : String)
    (h : ExtensionHandle) (d : ExtensionDecl) : Prop where
  object : ∃ e, h.object look = .ok e ∧ e.simpleId = d.localId ∧ e.label = d.label ∧
    e.target = d.targetIn ns ∧ e.ns = ns ∧ e.contributor = c
  content : ∃ hs, h.elements look = .ok hs ∧
    ElementHandle.ShowAll look h (.extension h) hs d.content

/-! ## Handles of a rooted store -/

theorem lookup_eq_find? (properties : List (String × String)) (key : String) :
    properties.lookup key = (properties.find? (·.1 = key)).map (·.2) := by
  induction properties with
  | nil => rfl
  | cons property properties ih =>
    obtain ⟨key', value⟩ := property
    by_cases hkey : key' = key
    · simp [hkey]
    · have hkey' : (key == key') = false := by simpa using Ne.symm hkey
      rw [List.lookup_cons, hkey', List.find?_cons_of_neg (by simpa using hkey)]
      exact ih

theorem Element.answers (e : Element) : e.Answers e.name e.properties e.value where
  name_eq := rfl
  value_eq := rfl
  properties_eq := rfl
  attribute?_eq := lookup_eq_find? e.properties
  attributeNames_eq := rfl

namespace ElementHandle

theorem rises_of_parent {look : Resolvers} {h : ElementHandle} {above : ElementParent}
    {root : ExtensionHandle} (hparent : h.parent look = .ok above)
    (habove : LeadsTo look root above) (hlt : above.id.index < h.id.index) :
    h.Rises look root := by
  intro steps hsteps
  cases steps with
  | zero => omega
  | succ steps =>
    rw [climb, hparent]
    cases above with
    | extension e => exact congrArg Except.ok habove
    | element a => exact habove steps (by simp only [ElementParent.id] at hlt; omega)

end ElementHandle

namespace Store

variable {s : Store} {look : Resolvers}

theorem object_of_element (hlook : look .live = s.get) {id : ObjectId} {e : Element}
    (h : s.element? id = some e) :
    (⟨.live, id⟩ : ElementHandle).object look = .ok e := by
  unfold ElementHandle.object Resolver.object
  rw [hlook, Store.get, element?_eq_some_iff.1 h]
  rfl

theorem object_of_extension (hlook : look .live = s.get) {id : ObjectId} {e : Extension}
    (h : s.extension? id = some e) :
    (⟨.live, id⟩ : ExtensionHandle).object look = .ok e := by
  unfold ExtensionHandle.object Resolver.object
  rw [hlook, Store.get, extension?_eq_some_iff.1 h]
  rfl

mutual

theorem Holds.shows (hlook : look .live = s.get) (hs : s.Rooted) {root : ExtensionHandle}
    {context : ElementContext}
    (habove : ElementHandle.LeadsTo look root context.above) {id : ObjectId}
    (hlt : context.parent.index < id.index) {e : ElementDecl}
    (h : s.Holds context id e) : ElementHandle.Shows look root context.above ⟨.live, id⟩ e := by
  cases e with
  | mk name properties value children =>
    obtain ⟨ids, helement, hbelow⟩ := h
    have hobject := object_of_element hlook helement
    have hparent : (⟨.live, id⟩ : ElementHandle).parent look = .ok context.above := by
      rw [ElementHandle.parent, hobject]
      unfold ElementContext.above
      cases context.parentKind <;> rfl
    have hindex : context.above.id = context.parent := by
      unfold ElementContext.above
      cases context.parentKind <;> rfl
    have hrises := ElementHandle.rises_of_parent hparent habove (hindex ▸ hlt)
    refine ⟨⟨_, hobject, Element.answers _⟩, hparent, hrises, hrises _ (ObjectId.index_lt id).le,
      ids.map (.mk .live), ?_, ?_⟩
    · rw [ElementHandle.children, hobject]
      rfl
    · -- the way up from here is what the children's ways up go on with
      refine HoldsAll.shows hlook hs ?_ (fun child hchild => ?_) hbelow
      · exact hrises
      · obtain ⟨-, -, hdown, -⟩ := hs.child (element?_eq_some_iff.1 helement) nofun child hchild
        exact hdown

theorem HoldsAll.shows (hlook : look .live = s.get) (hs : s.Rooted) {root : ExtensionHandle}
    {context : ElementContext}
    (habove : ElementHandle.LeadsTo look root context.above) {ids : List ObjectId}
    (hlt : ∀ id ∈ ids, context.parent.index < id.index) {es : List ElementDecl}
    (h : s.HoldsAll context ids es) :
    ElementHandle.ShowAll look root context.above (ids.map (.mk .live)) es := by
  cases es with
  | nil =>
    obtain rfl : ids = [] := h
    rfl
  | cons e es =>
    obtain ⟨id, rest, rfl, hfirst, hrest⟩ := h
    exact ⟨_, _, rfl, Holds.shows hlook hs habove (hlt id List.mem_cons_self) hfirst,
      HoldsAll.shows hlook hs habove (fun x hx => hlt x (List.mem_cons_of_mem _ hx)) hrest⟩

end

theorem HoldsExtension.shows (hlook : look .live = s.get) (hs : s.Rooted)
    {p : PreparedDeclaration} {id : ObjectId} {d : ExtensionDecl} (h : s.HoldsExtension p id d) :
    ExtensionHandle.Shows look p.declaration.contributor p.ns ⟨.live, id⟩ d := by
  obtain ⟨children, he, hcontent⟩ := h
  have hobject := object_of_extension hlook he
  have habove : ElementHandle.LeadsTo look ⟨.live, id⟩ (contentContext p id).above := rfl
  have hkind : ObjectKind.extension ≠ .point := nofun
  refine ⟨⟨_, hobject, rfl, rfl, rfl, rfl, rfl⟩, children.map (.mk .live), ?_, ?_⟩
  · rw [ExtensionHandle.elements, hobject]
    rfl
  · refine HoldsAll.shows hlook hs habove (fun child hchild => ?_) hcontent
    obtain ⟨-, -, hdown, -⟩ := hs.child (extension?_eq_some_iff.1 he) hkind child hchild
    exact hdown

end Store

/-! ## What a write declares -/

/-- The declarations that a write brings to a running registry. A stopped one takes none. -/
def Write.declared (r : Registry) (w : Write) : List Declaration :=
  if r.stopped then [] else w.declarations r

theorem Write.objects_perform {r : Registry} {w : Write} (hw : ∀ c, w ≠ .remove c) :
    ∃ t : Transaction, t.objects = r.objects ∧ (w.perform r).objects =
      (t.ingestAll ((w.declared r).filterMap r.strategy.prepare)).objects := by
  have hleaves := w.leaves_perform r
  unfold declared
  cases hs : r.stopped with
  | true =>
    rw [transaction?_of_stopped hs] at hleaves
    exact ⟨r.begin, rfl, hleaves.1⟩
  | false =>
    rw [transaction?_eq_ingestion hw] at hleaves
    obtain ⟨t, hobjects, htaken⟩ := Registry.objects_of_ingestion hs (w.declarations r)
    exact ⟨t, hobjects, htaken _ hleaves⟩

theorem Strategy.map_extensionsBy_prepare (σ : Strategy) {c : ContributorId} {ns : String}
    (hns : σ.namespaces.find? c = some ns) (ds : List Declaration) :
    (Transaction.extensionsBy c (ds.filterMap σ.prepare)).map (·.2) =
      (ds.filter (·.contributor = c)).flatMap (·.extensions) := by
  induction ds with
  | nil => rfl
  | cons d ds ih =>
    rw [List.filterMap_cons, prepare]
    by_cases hc : d.contributor = c
    · rw [hc, hns, List.filter_cons_of_pos (by simpa using hc), List.flatMap_cons, ← ih]
      simp [Transaction.extensionsBy, PreparedDeclaration.extensions, hc, Function.comp_def]
    · rw [List.filter_cons_of_neg (by simpa using hc), ← ih]
      cases σ.namespaces.find? d.contributor with
      | none => rfl
      | some _ => simp [Transaction.extensionsBy, hc]

theorem Strategy.of_mem_extensionsBy (σ : Strategy) {c : ContributorId} {ns : String}
    (hns : σ.namespaces.find? c = some ns) {ds : List Declaration} :
    ∀ x ∈ Transaction.extensionsBy c (ds.filterMap σ.prepare),
      x.1.declaration.contributor = c ∧ x.1.ns = ns := by
  intro x hx
  obtain ⟨p, hp, hx⟩ := List.mem_flatMap.1 hx
  obtain ⟨e, -, rfl⟩ := List.mem_map.1 hx
  obtain ⟨hp, hc⟩ := List.mem_filter.1 hp
  obtain ⟨d, -, hd⟩ := List.mem_filterMap.1 hp
  obtain ⟨ns', hns', rfl⟩ := Option.map_eq_some_iff.1 hd
  have hc : d.contributor = c := by simpa using hc
  rw [hc, hns] at hns'
  exact ⟨hc, (Option.some.inj hns').symm⟩

theorem Store.forall₂_shows {s : Store} {look : Resolvers} (hlook : look .live = s.get)
    (hs : s.Rooted) {σ : Strategy} {c : ContributorId}
    {ns : String} (hns : σ.namespaces.find? c = some ns) {ids : List ObjectId}
    {ds : List Declaration}
    (h : List.Forall₂ (fun id x => s.HoldsExtension x.1 id x.2) ids
      (Transaction.extensionsBy c (ds.filterMap σ.prepare))) :
    List.Forall₂ (ExtensionHandle.Shows look c ns) (ids.map (.mk .live))
      ((ds.filter (·.contributor = c)).flatMap (·.extensions)) := by
  rw [← σ.map_extensionsBy_prepare hns, List.forall₂_map_left_iff, List.forall₂_map_right_iff]
  have hboth := (List.forall₂_and_left _ _).2 ⟨σ.of_mem_extensionsBy hns, h.flip⟩
  refine hboth.flip.imp fun id x hx => ?_
  obtain ⟨⟨rfl, rfl⟩, hholds⟩ := hx
  exact HoldsExtension.shows hlook hs hholds

/-! ## Later registries -/

namespace Registry

variable {r r' : Registry} {digest : DigestFunction} {c : ContributorId}

/-- Stopping the registry now leaves its store in the cache: no file operation is refused and the
paths of the location keep leading where they do. A store that is unmarked is not written, and its
cache has to be the one it was loaded from. -/
structure Saves (digest : DigestFunction) (chance : Cache.Chance) (files : FileSystem)
    (r : Registry) : Prop where
  tree : files.IsTree
  cache_eq : r.cache = r.settings.location?
  unmarked : r.objects.dirty = false → (∀ l ∈ r.settings.location?, l.Steady files) ∧
    (loadCache digest files r.settings r.strategy.namespaces.fingerprint).2 = some r.objects
  marked : r.objects.dirty = true → (∀ l ∈ r.settings.location?, l.Lasting files) ∧
    r.settings.useCache = true ∧ r.publishes digest chance files = true ∧ r.objects.InMemory ∧
    r.objects.nextId < UInt32.size ∧
    (Cache.Image.layOut 0 0 r.objects.toParts.objects).2.length < UInt32.size

/-- What can become of a registry: it goes on, it ends, its cache is cleared, or it ends and is
opened again on the same cache and with the same fingerprint. -/
inductive Continues (digest : DigestFunction) : Registry → Registry → Prop
  | moment {r r' : Registry} (h : Moment r r') : Continues digest r r'
  | finishStop (r : Registry) (chance : Cache.Chance) (files : FileSystem) :
    Continues digest r (r.finishStop digest chance files).1
  | clearCache (r : Registry) (chance : Cache.Chance) (files : FileSystem) :
    Continues digest r (r.clearCache chance files).2.1
  | reopened {r : Registry} {chance : Cache.Chance} {files : FileSystem} {settings : Settings}
      {strategy : Strategy} (token : Option AccessToken) (h : r.Saves digest chance files)
      (huse : settings.useCache = r.settings.useCache)
      (hlocation : settings.location? = r.settings.location?)
      (hstrategy : strategy.namespaces.fingerprint = r.strategy.namespaces.fingerprint) :
    Continues digest r (start digest (r.finishStop digest chance files).2 settings strategy token)

theorem Saves.objects_start {chance : Cache.Chance} {files : FileSystem}
    (h : r.Saves digest chance files)
    (hwhole : r.objects.dirty = true → r.objects.Whole) {settings : Settings} {strategy : Strategy}
    (huse : settings.useCache = r.settings.useCache)
    (hlocation : settings.location? = r.settings.location?)
    (hstrategy : strategy.namespaces.fingerprint = r.strategy.namespaces.fingerprint)
    (token : Option AccessToken) :
    (start digest (r.finishStop digest chance files).2 settings strategy token).objects =
      r.objects.mark false := by
  rw [(start_frame digest _ _ _ token).2.2.2, hstrategy, loadCache_store, huse, hlocation,
    ← loadCache_store]
  cases hdirty : r.objects.dirty with
  | false =>
    obtain ⟨steady, hload⟩ := h.unmarked hdirty
    rw [loadCache_of_clean digest chance h.tree h.cache_eq hdirty steady, hload, Option.getD_some,
      ← hdirty]
    rfl
  | true =>
    obtain ⟨lasting, huse, hpublishes, hm, hn, hmain⟩ := h.marked hdirty
    rw [loadCache_of_dirty h.tree huse h.cache_eq hdirty hpublishes lasting (hwhole hdirty) hm hn
      hmain, if_pos rfl, Option.getD_some, Store.ofParts_toParts (hwhole hdirty) hn]

theorem Continues.objects (h : Continues digest r r') (hw : r.objects.Whole) :
    (∃ b, r'.objects = r.objects.mark b) ∨ ∃ w : Write, r' = w.perform r := by
  cases h with
  | moment h =>
    obtain ⟨-, -, hsame | hwrite⟩ := h.frame
    · exact .inl ⟨_, hsame⟩
    · exact .inr hwrite
  | finishStop chance files => exact .inl (finishStop_frame digest chance r files).2.2.2.2
  | clearCache chance files => exact .inl ⟨_, (sameButLog_clearCache chance r files).objects_eq⟩
  | reopened token h huse hlocation hstrategy =>
    exact .inl ⟨_, h.objects_start (fun _ => hw) huse hlocation hstrategy token⟩

theorem Continues.nextId_le (h : Continues digest r r') (hn : r'.objects.nextId ≤ UInt32.size) :
    r.objects.nextId ≤ UInt32.size := by
  cases h with
  | moment h => exact h.nextId_le.trans hn
  | finishStop chance files =>
    obtain ⟨-, -, -, -, b, hmark⟩ := finishStop_frame digest chance r files
    rw [hmark] at hn
    exact hn
  | clearCache chance files =>
    rw [(sameButLog_clearCache chance r files).objects_eq] at hn
    exact hn
  | reopened token h huse hlocation hstrategy =>
    -- a marked store need not be whole here, but it was written with its next id
    cases hdirty : r.objects.dirty with
    | true =>
      obtain ⟨-, -, -, -, hlt, -⟩ := h.marked hdirty
      exact hlt.le
    | false =>
      rw [h.objects_start (by simp [hdirty]) huse hlocation hstrategy token] at hn
      exact hn

/-- Some steps, in none of which the contributor is taken out. -/
def Remains (digest : DigestFunction) (c : ContributorId) (r r' : Registry) : Prop :=
  Relation.ReflTransGen (fun r r' => Continues digest r r' ∧ r'.hasContributor c = true) r r'

namespace Remains

theorem nextId_le (h : Remains digest c r r') (hn : r'.objects.nextId ≤ UInt32.size) :
    r.objects.nextId ≤ UInt32.size := by
  induction h with
  | refl => exact hn
  | tail _ hstep ih => exact ih (hstep.1.nextId_le hn)

theorem outlives (h : Remains digest c r r') (hw : r.objects.Whole)
    (hn : r'.objects.nextId ≤ UInt32.size) :
    r'.objects.Whole ∧ r.objects.Outlives c r'.objects := by
  induction h with
  | refl => exact ⟨hw, .refl c _⟩
  | tail _ hstep ih =>
    obtain ⟨hcontinues, hremains⟩ := hstep
    obtain ⟨hmid, houtlives⟩ := ih (hcontinues.nextId_le hn)
    obtain ⟨b, hmark⟩ | ⟨w, rfl⟩ := hcontinues.objects hmid
    · rw [hmark]
      exact ⟨hmid.mark b, houtlives.trans (.mark c _ b)⟩
    · exact ⟨w.whole_perform hmid hn,
        houtlives.trans (w.outlives_perform hmid.settled hn hremains)⟩

end Remains

end Registry

/-! ## What was declared is read -/

open Registry (Opened Remains)

/-- What a write declares for a contributor with a namespace is listed last among what that brought,
and whatever becomes of the registry, handles show it as it was declared, as long as the contributor
is not taken out. -/
theorem Write.shows_of_opened {digest : DigestFunction} {files : FileSystem} {o r r' : Registry}
    (ho : Opened digest files o) (hlife : o.Life r) {w : Write} (hw : ∀ c, w ≠ .remove c)
    {c : ContributorId} {ns : String} (hns : r.strategy.namespaces.find? c = some ns)
    (hlater : Remains digest c (w.perform r) r') (hn : r'.objects.nextId ≤ UInt32.size) :
    (r'.objects.objectsFrom c .extension).Nodup ∧ ∃ ids later,
      r'.objects.objectsFrom c .extension = r.objects.objectsFrom c .extension ++ ids ++ later ∧
      List.Forall₂ (ExtensionHandle.Shows r'.resolver c ns) (ids.map (.mk .live))
        (((w.declared r).filter (·.contributor = c)).flatMap (·.extensions)) := by
  have hperform := hlater.nextId_le hn
  have hwhole := hlife.whole ho.whole.1 ((w.nextId_le_perform r).trans hperform)
  have hwhole' := w.whole_perform hwhole hperform
  obtain ⟨hlast, hages, later, hlisted⟩ := hlater.outlives hwhole' hn
  -- right after the write the declared extensions end the list, later others may follow them
  obtain ⟨t, hobjects, htaken⟩ := Write.objects_perform hw
  rw [← hobjects] at hwhole
  rw [htaken] at hperform
  obtain ⟨ids, hids, hholds⟩ := t.holds_ingestAll hwhole _ hperform c
  rw [← htaken] at hids hholds
  rw [hobjects] at hids
  refine ⟨hlast.listed.nodup_extensions c, ids, later, ?_, ?_⟩
  · rw [← hlisted, hids]
  · have hmem : ∀ id ∈ ids, id ∈ (w.perform r).objects.objectsFrom c .extension := fun id hid =>
      hids ▸ List.mem_append_right _ hid
    exact Store.forall₂_shows rfl hlast.rooted hns
      (Store.forall₂_outlives hholds hwhole'.rooted hlast ⟨hages, later, hlisted⟩ hmem)

namespace Registry

open Cache (plainDigest)

/-- Its top element has a key twice and an element below it. -/
def sampleItem : ExtensionDecl where
  target := "menu"
  content :=
    [.mk "item" [("key", "first"), ("key", "second")] (some "text") [.mk "part" [] none []]]

def sampleBringing : Write := .add { contributor := ⟨1⟩, extensions := [sampleItem] }

/-- A registry that was opened on nothing and took the item in. -/
def sampleBrought : Registry := sampleBringing.perform (sampleOpened .empty sampleSettings)

/-- What its stop leaves behind. -/
def sampleCached : FileSystem := (sampleBrought.finishStop plainDigest .plain .empty).2

/-- The registry that is opened on that. -/
def sampleRead : Registry := sampleOpened sampleCached sampleSettings

/-- That one is stopped and opened again, too. -/
def sampleReread : Registry :=
  sampleOpened (sampleRead.finishStop plainDigest .plain sampleCached).2 sampleSettings

theorem saves_sampleBrought : sampleBrought.Saves plainDigest .plain .empty where
  tree := by decide
  cache_eq := by decide +kernel
  unmarked := by
    have hdirty : sampleBrought.objects.dirty = true := by decide +kernel
    simp [hdirty]
  marked _ := by
    have hlocation : sampleBrought.settings.location? = some sampleLocation := by decide +kernel
    refine ⟨?_, by decide +kernel, by decide +kernel,
      ⟨by decide +kernel, by decide +kernel, by decide +kernel⟩, by decide +kernel,
      by decide +kernel⟩
    rw [hlocation]
    rintro l ⟨⟩
    exact lasting_sampleLocation

theorem saves_sampleRead : sampleRead.Saves plainDigest .plain sampleCached where
  tree := by decide +kernel
  cache_eq := by decide +kernel
  unmarked _ := by
    obtain ⟨hsettings, hstrategy, -, hobjects⟩ := sampleOpened_frame sampleCached sampleSettings
    have hlocation : sampleSettings.location? = some sampleLocation := by decide +kernel
    have hfound : (loadCache plainDigest sampleCached sampleSettings 0).2.isSome = true := by
      decide +kernel
    obtain ⟨loaded, hloaded⟩ := Option.isSome_iff_exists.1 hfound
    rw [sampleRead, hsettings, hstrategy, hobjects, hlocation]
    refine ⟨?_, by rw [hloaded]; exact hloaded⟩
    rintro l ⟨⟩
    exact Cache.Location.steady_of_isDirectory (by decide +kernel) (by decide +kernel)
  marked := by
    have hclean : sampleRead.objects.dirty = false := by decide +kernel
    simp [hclean]

theorem shows_sampleItem :
    sampleReread.objects.objectsFrom ⟨1⟩ .extension = [⟨0⟩] ∧
      ExtensionHandle.Shows sampleReread.resolver ⟨1⟩ "ui" ⟨.live, ⟨0⟩⟩ sampleItem := by
  have hcold : Opened plainDigest .empty (sampleOpened .empty sampleSettings) :=
    opened_sample (by decide +kernel)
  have hread : Continues plainDigest sampleBrought (start plainDigest
      (sampleBrought.finishStop plainDigest .plain .empty).2 sampleSettings sample.strategy none) :=
    .reopened none saves_sampleBrought (by decide +kernel) (by decide +kernel) (by decide +kernel)
  have hreread : Continues plainDigest sampleRead (start plainDigest
      (sampleRead.finishStop plainDigest .plain sampleCached).2 sampleSettings sample.strategy
      none) :=
    .reopened none saves_sampleRead (by decide +kernel) (by decide +kernel) (by decide +kernel)
  have hremains : Remains plainDigest ⟨1⟩ sampleBrought sampleReread :=
    (Relation.ReflTransGen.single ⟨hread, by decide +kernel⟩).tail ⟨hreread, by decide +kernel⟩
  have hadds : ∀ c, sampleBringing ≠ .remove c := fun _ h => nomatch h
  have hns : (sampleOpened .empty sampleSettings).strategy.namespaces.find? ⟨1⟩ = some "ui" := by
    decide +kernel
  obtain ⟨-, ids, later, hlisted, hshows⟩ :=
    Write.shows_of_opened hcold .refl hadds hns hremains (by decide +kernel)
  have hone : sampleReread.objects.objectsFrom ⟨1⟩ .extension = [⟨0⟩] := by decide +kernel
  have hbefore : (sampleOpened .empty sampleSettings).objects.objectsFrom ⟨1⟩ .extension = [] := by
    decide +kernel
  have hrunning : (sampleOpened .empty sampleSettings).stopped = false := by decide +kernel
  have hdeclared : ((sampleBringing.declared (sampleOpened .empty sampleSettings)).filter
      (·.contributor = ⟨1⟩)).flatMap (·.extensions) = [sampleItem] := by
    simp [Write.declared, Write.declarations, hrunning, sampleBringing]
  rw [hdeclared, List.forall₂_map_left_iff, List.forall₂_cons_right_iff] at hshows
  obtain ⟨id, rest, hshown, -, rfl⟩ := hshows
  rw [hone, hbefore] at hlisted
  obtain rfl : ⟨0⟩ = id := (List.cons.inj hlisted).1
  exact ⟨hone, hshown⟩

end Registry

end PluginRegistry
