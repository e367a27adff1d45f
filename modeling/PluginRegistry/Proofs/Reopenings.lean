import PluginRegistry.Proofs.Lives
import PluginRegistry.Proofs.Publications
import PluginRegistry.Proofs.Reloads
import PluginRegistry.Registry.Lookup

/-!
# Stopping and opening again

An unmarked store is still the one that the registry was opened with, and opening it again loads
the same; a marked one is stored in the cache when the registry stops, and opening it again loads
what was stored. In both cases the next registry goes on with the store of the one that was stopped
(`Registry.resumes_of_opened`), as long as the stop leaves the paths of the location where they
lead; where it does not, the store is lost (`Registry.lost_unsteady`).
-/

namespace PluginRegistry.Registry

variable {r r' r₀ : Registry} {digest : DigestFunction}
  {chance : Cache.Chance} {files : FileSystem}

/-! ## Opening -/

theorem loadCache_store (digest : DigestFunction) (files : FileSystem) (settings : Settings)
    (fingerprint : UInt64) : (loadCache digest files settings fingerprint).2 =
      if settings.useCache then settings.location?.bind fun l =>
        (l.load digest files fingerprint).toOption.map fun loaded => Store.ofParts loaded.2
      else none := by
  unfold loadCache
  cases settings.useCache with
  | false => rfl
  | true =>
    cases settings.location? with
    | none => rfl
    | some l =>
      rw [if_pos rfl, Option.bind_some]
      dsimp only
      unfold Cache.Location.loadStore
      cases l.load digest files fingerprint <;> cases settings.debug <;> rfl

theorem start_frame (digest : DigestFunction) (files : FileSystem) (settings : Settings)
    (strategy : Strategy) (token : Option AccessToken) :
    (start digest files settings strategy token).settings = settings ∧
      (start digest files settings strategy token).strategy = strategy ∧
      (start digest files settings strategy token).cache = settings.location? ∧
      (start digest files settings strategy token).objects =
        (loadCache digest files settings strategy.namespaces.fingerprint).2.getD .empty := by
  unfold start
  dsimp only
  split
  · exact addListener_frame _ _ _
  · exact ⟨rfl, rfl, rfl, rfl⟩

/-- A registry that was opened without a usable cache, or on a cache that gives back the parts such
a registry had after some turns. -/
inductive Opened (digest : DigestFunction) : FileSystem → Registry → Prop
  | cold {files : FileSystem} {settings : Settings} {strategy : Strategy}
      (token : Option AccessToken)
      (hload : (loadCache digest files settings strategy.namespaces.fingerprint).2 = none) :
      Opened digest files (start digest files settings strategy token)
  | warm {files before : FileSystem} {settings : Settings} {strategy : Strategy} {r₀ r : Registry}
      (token : Option AccessToken) (h : Opened digest before r₀) (hlife : r₀.Life r)
      (hn : r.objects.nextId < UInt32.size)
      (hload : (loadCache digest files settings strategy.namespaces.fingerprint).2 =
        some (.ofParts r.objects.toParts)) :
      Opened digest files (start digest files settings strategy token)

theorem Opened.objects_eq (h : Opened digest files r) : r.cache = r.settings.location? ∧
    r.objects =
      (loadCache digest files r.settings r.strategy.namespaces.fingerprint).2.getD .empty := by
  cases h with
  | cold token =>
    obtain ⟨hsettings, hstrategy, hcache, hobjects⟩ := start_frame digest files _ _ token
    rw [hsettings, hstrategy]
    exact ⟨hcache, hobjects⟩
  | warm token =>
    obtain ⟨hsettings, hstrategy, hcache, hobjects⟩ := start_frame digest files _ _ token
    rw [hsettings, hstrategy]
    exact ⟨hcache, hobjects⟩

theorem Opened.of_load {files' : FileSystem} {settings : Settings} {strategy : Strategy}
    {token : Option AccessToken} (h : Opened digest files r)
    (hload : (loadCache digest files' settings strategy.namespaces.fingerprint).2 =
      (loadCache digest files r.settings r.strategy.namespaces.fingerprint).2) :
    Opened digest files' (start digest files' settings strategy token) := by
  cases h with
  | cold token' hcold =>
    obtain ⟨hsettings, hstrategy, -⟩ := start_frame digest files _ _ token'
    rw [hsettings, hstrategy, hcold] at hload
    exact .cold token hload
  | warm token' h hlife hn hwarm =>
    obtain ⟨hsettings, hstrategy, -⟩ := start_frame digest files _ _ token'
    rw [hsettings, hstrategy, hwarm] at hload
    exact .warm token h hlife hn hload

theorem Opened.whole (h : Opened digest files r) : r.objects.Whole ∧ r.objects.dirty = false := by
  induction h with
  | cold token hload =>
    rw [(start_frame digest _ _ _ token).2.2.2, hload]
    exact ⟨Store.whole_empty, rfl⟩
  | warm token h hlife hn hload ih =>
    have hwhole := hlife.whole ih.1 hn.le
    rw [(start_frame digest _ _ _ token).2.2.2, hload, Option.getD_some,
      Store.ofParts_toParts hwhole hn]
    exact ⟨hwhole.mark false, rfl⟩

/-! ## Stopping -/

/-- An unmarked store is not written: the stop makes the directory of the cache at most. -/
theorem finishStop_of_clean (hclean : r.objects.dirty = false) :
    (r.finishStop digest chance files).2 = r.cache.elim files (fun l => (l.prepare files).2) ∧
      (r.finishStop digest chance files).1.objects = r.objects := by
  obtain ⟨-, -, hcache, hobjects⟩ := r.stopDispatcher_frame
  rw [← hobjects] at hclean
  rw [← hcache, ← hobjects]
  unfold finishStop
  generalize r.stopDispatcher = stopped at hclean ⊢
  unfold flush
  cases stopped.cache with
  | none => exact ⟨rfl, rfl⟩
  | some l =>
    dsimp only [Option.elim]
    rcases l.prepare files with ⟨writable, made⟩
    cases writable with
    | false => exact ⟨rfl, rfl⟩
    | true =>
      dsimp only
      rw [hclean]
      exact ⟨rfl, rfl⟩

/-- The directory of the cache can be written, and no file operation on the way to the next
generation is refused. -/
def publishes (digest : DigestFunction) (chance : Cache.Chance) (files : FileSystem)
    (r : Registry) : Bool :=
  r.cache.any fun l =>
    (l.prepare files).1 && (l.store digest chance (l.prepare files).2
      (Cache.Image.encode r.objects.toParts r.strategy.namespaces.fingerprint)).2.2.isOk

theorem finishStop_of_dirty (hdirty : r.objects.dirty = true)
    (hpublishes : r.publishes digest chance files = true) :
    ∃ l ∈ r.cache, (l.prepare files).1 = true ∧
      let stored := l.store digest chance (l.prepare files).2
        (Cache.Image.encode r.objects.toParts r.strategy.namespaces.fingerprint)
      (∃ generation, stored.2.2 = .ok generation) ∧
      (r.finishStop digest chance files).2 = stored.1 ∧
      (r.finishStop digest chance files).1.objects = r.objects.mark false := by
  obtain ⟨-, hstrategy, hcache, hobjects⟩ := r.stopDispatcher_frame
  obtain ⟨l, hl, hpublishes⟩ := (Option.any_eq_true _ _).1 hpublishes
  obtain ⟨hwritable, hstored⟩ := Bool.and_eq_true_iff.1 hpublishes
  refine ⟨l, hl, hwritable, ?_⟩
  rw [← hcache] at hl
  rw [← hobjects] at hdirty
  rw [← hstrategy, ← hobjects] at hstored ⊢
  unfold finishStop
  generalize r.stopDispatcher = stopped at hl hdirty hstored ⊢
  unfold flush
  rw [hl]
  dsimp only
  rcases hprepare : l.prepare files with ⟨writable, made⟩
  rw [hprepare] at hwritable hstored
  subst hwritable
  dsimp only at hstored ⊢
  rw [hdirty, if_neg nofun]
  generalize l.store digest chance made _ = stored at hstored ⊢
  obtain ⟨after, records, e | generation⟩ := stored
  · cases hstored
  · refine ⟨⟨generation, rfl⟩, rfl, ?_⟩
    dsimp only
    split <;> rfl

/-! ## What is in the cache after a stop -/

theorem loadCache_of_clean (digest : DigestFunction) (chance : Cache.Chance) (tree : files.IsTree)
    (hcache : r.cache = r.settings.location?) (hclean : r.objects.dirty = false)
    (steady : ∀ l ∈ r.settings.location?, l.Steady files) (fingerprint : UInt64) :
    (loadCache digest (r.finishStop digest chance files).2 r.settings fingerprint).2 =
      (loadCache digest files r.settings fingerprint).2 := by
  rw [(finishStop_of_clean hclean).1, hcache, loadCache_store, loadCache_store]
  cases hlocation : r.settings.location? with
  | none => rfl
  | some l =>
    dsimp only [Option.elim, Option.bind_some]
    rw [l.load_of_prepare (steady l hlocation) tree]

theorem loadCache_of_dirty (tree : files.IsTree) (huse : r.settings.useCache = true)
    (hcache : r.cache = r.settings.location?) (hdirty : r.objects.dirty = true)
    (hpublishes : r.publishes digest chance files = true)
    (lasting : ∀ l ∈ r.settings.location?, l.Lasting files) (hw : r.objects.Whole)
    (hm : r.objects.InMemory) (hn : r.objects.nextId < UInt32.size)
    (hmain : (Cache.Image.layOut 0 0 r.objects.toParts.objects).2.length < UInt32.size)
    (fingerprint : UInt64) :
    (loadCache digest (r.finishStop digest chance files).2 r.settings fingerprint).2 =
      if r.strategy.namespaces.fingerprint = fingerprint then some (.ofParts r.objects.toParts)
      else none := by
  obtain ⟨l, hl, hprepare, ⟨generation, hstore⟩, hfiles, -⟩ := finishStop_of_dirty hdirty hpublishes
  have hlocation := hcache.symm.trans hl
  have hlasting := lasting l hlocation
  have hprepared : l.Lasting (l.prepare files).2 :=
    ⟨hlasting.kept, fun hbase => l.found?_of_prepare hprepare ▸ hlasting.short hbase⟩
  have tree' : (l.prepare files).2.IsTree := by
    rw [l.prepare_files]
    cases l.target? with
    | none => exact tree
    | some base => exact Cache.isTree_makeDirectories tree base
  obtain ⟨base, hload⟩ := l.load_of_store tree' hprepared rfl hstore
  have hstamp (f : UInt64) : (Cache.Image.encode r.objects.toParts f).fingerprint = f := rfl
  rw [hfiles, loadCache_store, huse, if_pos rfl, hlocation, Option.bind_some, hload, hstamp]
  by_cases hsame : r.strategy.namespaces.fingerprint = fingerprint
  · subst hsame
    rw [if_neg (not_not.2 rfl), if_pos rfl, (hw.reload hm hn hmain _).1]
    rfl
  · rw [if_pos hsame, if_neg hsame]
    rfl

/-! ## Opening again -/

/-- Two registries that answer every question the same. -/
structure SameAnswers (r r' : Registry) : Prop where
  resolver : r'.resolver .live = r.resolver .live
  points : r'.points = r.points
  point? : r'.point? = r.point?
  pointIn? : r'.pointIn? = r.pointIn?
  pointsIn : r'.pointsIn = r.pointsIn
  extension? : r'.extension? = r.extension?
  extensionFor? : r'.extensionFor? = r.extensionFor?
  extensionIn? : r'.extensionIn? = r.extensionIn?
  extensionsIn : r'.extensionsIn = r.extensionsIn
  elementsFor : r'.elementsFor = r.elementsFor
  elementsIn : r'.elementsIn = r.elementsIn
  elementsOf : r'.elementsOf = r.elementsOf
  namespaces : r'.namespaces = r.namespaces
  hasContributor : r'.hasContributor = r.hasContributor

theorem sameAnswers_of_mark {b : Bool} (h : r'.objects = r.objects.mark b) : SameAnswers r r' := by
  cases r
  cases r'
  cases h
  exact ⟨rfl, rfl, rfl, rfl, rfl, rfl, rfl, rfl, rfl, rfl, rfl, rfl, rfl, rfl⟩

/-- A registry goes on with the store of another one. -/
structure GoesOn (r next : Registry) : Prop where
  toParts_eq : next.objects.toParts = r.objects.toParts
  unmarked : next.objects.dirty = false
  answers : r.SameAnswers next

theorem goesOn_of_unmarked (h : r'.objects = r.objects.mark false) : r.GoesOn r' where
  toParts_eq := by rw [h]; rfl
  unmarked := by rw [h]; rfl
  answers := sameAnswers_of_mark h

/-- Opening again with the settings and the fingerprint of a registry goes on with its store, and
the next stop is one of a registry that was opened like this one. -/
def Resumes (digest : DigestFunction) (files : FileSystem) (r : Registry) : Prop :=
  ∀ (strategy : Strategy) (token : Option AccessToken),
    strategy.namespaces.fingerprint = r.strategy.namespaces.fingerprint →
    r.GoesOn (start digest files r.settings strategy token) ∧
      Opened digest files (start digest files r.settings strategy token)

/-- Opening again with another fingerprint starts with nothing. -/
def Forgets (digest : DigestFunction) (files : FileSystem) (r : Registry) : Prop :=
  ∀ (strategy : Strategy) (token : Option AccessToken),
    strategy.namespaces.fingerprint ≠ r.strategy.namespaces.fingerprint →
    (start digest files r.settings strategy token).objects = .empty

/-- However a registry came by its store, opening again after its stop goes on with that store,
provided that no file operation was refused and that the stop did not change what the paths of the
location lead to. If any write changed the store, opening again with another fingerprint starts
with nothing. -/
theorem resumes_of_opened (h : Opened digest files r₀) (hlife : r₀.Life r)
    (huse : r.settings.useCache = true)
    (hfingerprint : r.strategy.namespaces.fingerprint = r₀.strategy.namespaces.fingerprint)
    (hm : r.objects.InMemory) (hn : r.objects.nextId < UInt32.size)
    (hmain : (Cache.Image.layOut 0 0 r.objects.toParts.objects).2.length < UInt32.size)
    (tree : files.IsTree)
    (steady : r.objects.dirty = false → ∀ l ∈ r.settings.location?, l.Steady files)
    (lasting : r.objects.dirty = true → ∀ l ∈ r.settings.location?, l.Lasting files)
    (hpublishes : r.objects.dirty = true → r.publishes digest chance files = true) :
    (r.finishStop digest chance files).1.objects = r.objects.mark false ∧
      r.Resumes digest (r.finishStop digest chance files).2 ∧
      (r₀.Changes r → r.Forgets digest (r.finishStop digest chance files).2) := by
  have hwhole := hlife.whole h.whole.1 hn.le
  obtain ⟨hsettings, hkept⟩ := hlife.frame
  have hcache : r.cache = r.settings.location? := by rw [hkept, h.objects_eq.1, hsettings]
  cases hdirty : r.objects.dirty with
  | false =>
    -- nothing was written, so the store is the one that was loaded, and it is loaded again
    have hload := loadCache_of_clean digest chance tree hcache hdirty (steady hdirty)
    have hsame : r.objects = r₀.objects :=
      (hlife.objects_eq_or_dirty h.whole.1 hn.le).resolve_right (by simp [hdirty])
    have hmark : r.objects = r.objects.mark false := hdirty ▸ rfl
    refine ⟨(finishStop_of_clean hdirty).2.trans hmark, ?_, ?_⟩
    · intro strategy token hstrategy
      have hagain : (loadCache digest (r.finishStop digest chance files).2 r.settings
          strategy.namespaces.fingerprint).2 =
          (loadCache digest files r₀.settings r₀.strategy.namespaces.fingerprint).2 := by
        rw [hload, hstrategy, hfingerprint, hsettings]
      refine ⟨goesOn_of_unmarked ?_, h.of_load hagain⟩
      rw [(start_frame digest _ _ _ token).2.2.2, hagain, ← h.objects_eq.2, ← hsame]
      exact hmark
    · intro hchanges
      rw [hchanges.dirty h.whole.1 hn.le] at hdirty
      cases hdirty
  | true =>
    have hload := loadCache_of_dirty tree huse hcache hdirty (hpublishes hdirty) (lasting hdirty)
      hwhole hm hn hmain
    obtain ⟨-, -, -, -, -, hstopped⟩ := finishStop_of_dirty hdirty (hpublishes hdirty)
    refine ⟨hstopped, ?_, ?_⟩
    · intro strategy token hstrategy
      have hagain := hload strategy.namespaces.fingerprint
      rw [if_pos hstrategy.symm] at hagain
      refine ⟨goesOn_of_unmarked ?_, .warm token h hlife hn hagain⟩
      rw [(start_frame digest _ _ _ token).2.2.2, hagain]
      exact Store.ofParts_toParts hwhole hn
    · intro _ strategy token hstrategy
      rw [(start_frame digest _ _ _ token).2.2.2, hload, if_neg (Ne.symm hstrategy)]
      rfl

/-! ## A small registry with a cache -/

open Cache (plainDigest plainFiles)

def sampleOpened (files : FileSystem) (settings : Settings) : Registry :=
  start plainDigest files settings sample.strategy none

theorem sampleOpened_frame (files : FileSystem) (settings : Settings) :
    (sampleOpened files settings).settings = settings ∧
      (sampleOpened files settings).strategy = sample.strategy ∧
      (sampleOpened files settings).cache = settings.location? ∧
      (sampleOpened files settings).objects =
        (loadCache plainDigest files settings 0).2.getD .empty :=
  start_frame plainDigest files settings sample.strategy none

def sampleSettings : Settings := { cacheDirectory := some (.ofText "p") }

def sampleLocation : Cache.Location where
  primary := some ⟨["p"]⟩
  alternative := none
  readOnly := false

/-- A registry that was opened on nothing and brought a point. -/
def sampleWritten : Registry := samplePoint.perform (sampleOpened .empty sampleSettings)

def sampleFlushed : FileSystem := (sampleWritten.finishStop plainDigest .plain .empty).2

/-- The registry that is opened on that. -/
def sampleResumed : Registry := sampleOpened sampleFlushed sampleSettings

theorem opened_sample {files : FileSystem} {settings : Settings}
    (h : (loadCache plainDigest files settings 0).2.isNone = true) :
    Opened plainDigest files (sampleOpened files settings) :=
  .cold none (Option.isNone_iff_eq_none.1 h)

theorem lasting_sampleLocation : sampleLocation.Lasting .empty :=
  Cache.Location.lasting_of_no_steps_back .empty (by decide) (by decide)

theorem inMemory_sampleWritten : sampleWritten.objects.InMemory :=
  ⟨by decide +kernel, by decide +kernel, by decide +kernel⟩

theorem resumes_sampleWritten : sampleWritten.objects.toParts.nextId = 1 ∧
    sampleWritten.Resumes plainDigest sampleFlushed ∧
    sampleWritten.Forgets plainDigest sampleFlushed ∧
    sampleResumed.Resumes plainDigest
      (sampleResumed.finishStop plainDigest .plain sampleFlushed).2 := by
  have hcold : Opened plainDigest .empty (sampleOpened .empty sampleSettings) :=
    opened_sample (by decide +kernel)
  have hlife : (sampleOpened .empty sampleSettings).Life sampleWritten :=
    .single (.turn (.write _ _))
  have hdirty : sampleWritten.objects.dirty = true := by decide +kernel
  have hlasting : ∀ l ∈ sampleWritten.settings.location?, l.Lasting .empty := by
    have hlocation : sampleWritten.settings.location? = some sampleLocation := by decide +kernel
    rw [hlocation]
    rintro l ⟨⟩
    exact lasting_sampleLocation
  have hpublishes : sampleWritten.publishes plainDigest .plain .empty = true := by decide +kernel
  obtain ⟨-, hresumes, hforgets⟩ := resumes_of_opened hcold hlife (by decide +kernel)
    (by decide +kernel) inMemory_sampleWritten (by decide +kernel) (by decide +kernel) (by decide)
    (by simp [hdirty]) (fun _ => hlasting) (fun _ => hpublishes)
  have hchanges : (sampleOpened .empty sampleSettings).Changes sampleWritten :=
    ⟨_, samplePoint, .refl, fun h => absurd (congrArg Parts.nextId h) (by decide +kernel), .refl⟩
  refine ⟨by decide +kernel, hresumes, hforgets hchanges, ?_⟩
  -- the next registry changes nothing before it is stopped
  have hwarm : Opened plainDigest sampleFlushed sampleResumed :=
    (hresumes sample.strategy none (by decide +kernel)).2
  have hclean : sampleResumed.objects.dirty = false := hwarm.whole.2
  have hmemory : sampleResumed.objects.InMemory :=
    ⟨by decide +kernel, by decide +kernel, by decide +kernel⟩
  have tree : sampleFlushed.IsTree := by decide +kernel
  have hsteady : ∀ l ∈ sampleResumed.settings.location?, l.Steady sampleFlushed := by
    have hlocation : sampleResumed.settings.location? = some sampleLocation := by decide +kernel
    rw [hlocation]
    rintro l ⟨⟩
    exact Cache.Location.steady_of_isDirectory tree (by decide +kernel)
  exact (resumes_of_opened hwarm .refl (by decide +kernel) rfl hmemory (by decide +kernel)
    (by decide +kernel) tree (fun _ => hsteady) (by simp [hclean]) (by simp [hclean])).2.1

/-! ## Paths that lead elsewhere after a stop -/

/-- The cache of a registry can be written and no file operation is refused, but opening again gives
another store. -/
structure Lost (digest : DigestFunction) (chance : Cache.Chance) (files : FileSystem)
    (r₀ r : Registry) : Prop where
  opened : Opened digest files r₀
  life : r₀.Life r
  useCache : r.settings.useCache = true
  fingerprint_eq : r.strategy.namespaces.fingerprint = r₀.strategy.namespaces.fingerprint
  inMemory : r.objects.InMemory
  nextId_lt : r.objects.nextId < UInt32.size
  main_lt : (Cache.Image.layOut 0 0 r.objects.toParts.objects).2.length < UInt32.size
  tree : files.IsTree
  writable : r.cache.any (fun l => (l.prepare files).1) = true
  publishes : r.objects.dirty = true → r.publishes digest chance files = true
  lost :
    (start digest (r.finishStop digest chance files).2 r.settings r.strategy none).objects.toParts ≠
      r.objects.toParts

/-- A registry that has read no cache and writes nothing loses its store to a cache that comes into
sight when it stops. -/
theorem lost_of_cold {settings : Settings} (huse : settings.useCache = true)
    (hload : (loadCache plainDigest files settings 0).2.isNone = true) (tree : files.IsTree)
    (hwritable : settings.location?.any (fun l => (l.prepare files).1) = true)
    (hnext : (sampleOpened ((sampleOpened files settings).finishStop plainDigest .plain files).2
      settings).objects.toParts.nextId ≠ 0) :
    Lost plainDigest .plain files (sampleOpened files settings) (sampleOpened files settings) := by
  obtain ⟨hsettings, hstrategy, hcache, hobjects⟩ := sampleOpened_frame files settings
  have hempty : (sampleOpened files settings).objects = .empty := by
    rw [hobjects, Option.isNone_iff_eq_none.1 hload]
    rfl
  have hclean : (sampleOpened files settings).objects.dirty = false := by
    rw [hempty]
    rfl
  exact {
    opened := opened_sample hload
    life := .refl
    useCache := by rwa [hsettings]
    fingerprint_eq := rfl
    inMemory := by
      rw [hempty]
      exact ⟨by decide, by decide, by decide⟩
    nextId_lt := by
      rw [hempty]
      decide
    main_lt := by
      rw [hempty]
      decide
    tree := tree
    writable := by rwa [hcache]
    publishes := by simp [hclean]
    lost := fun hsame => hnext (by
      rw [hempty, hsettings, hstrategy] at hsame
      exact congrArg Parts.nextId hsame) }

/-- The primary path steps back from a generation that is removed. -/
def throughGeneration : Settings := { cacheDirectory := some (.ofText "p/gen-1/..") }

/-- The primary path steps back from a directory that is made for it. -/
def throughMissing : Settings := { cacheDirectory := some (.ofText "p/x/..") }

/-- The alternative path steps back from a directory that is made above the primary one. -/
def throughPrimary : Settings where
  cacheDirectory := some (.ofText "x/y")
  alternativeDirectory := some (.ofText "x/../p")

theorem lost_throughGeneration : Lost plainDigest .plain plainFiles
    (sampleOpened plainFiles throughGeneration)
    (samplePoint.perform (sampleOpened plainFiles throughGeneration)) where
  opened := opened_sample (by decide +kernel)
  life := .single (.turn (.write _ _))
  useCache := by decide +kernel
  fingerprint_eq := by decide +kernel
  inMemory := ⟨by decide +kernel, by decide +kernel, by decide +kernel⟩
  nextId_lt := by decide +kernel
  main_lt := by decide +kernel
  tree := by decide
  writable := by decide +kernel
  publishes := by decide +kernel
  lost := fun hsame => absurd (congrArg Parts.nextId hsame) (by decide +kernel)

def wideName : String := String.ofList (List.replicate 54 'a')

/-- With a path of 4061 bytes a generation of twenty digits can be staged and not be read. -/
def wideLocation : Cache.Location where
  primary := some ⟨(List.replicate 70 [wideName, ".."]).flatten ++ ["p"]⟩
  alternative := none
  readOnly := false

def wideFiles : FileSystem :=
  ⟨[([], .directory .ofDirectory), ([wideName], .directory .ofDirectory),
    (["p"], .directory .ofDirectory), (["p", "gen-18446744073709551613"], .directory .ofDirectory)]⟩

/-- None of the conditions on the paths of a location can be left out. -/
theorem lost_unsteady :
    Lost plainDigest .plain plainFiles (sampleOpened plainFiles throughGeneration)
      (samplePoint.perform (sampleOpened plainFiles throughGeneration)) ∧
    Lost plainDigest .plain sampleFlushed (sampleOpened sampleFlushed throughMissing)
      (sampleOpened sampleFlushed throughMissing) ∧
    Lost plainDigest .plain sampleFlushed (sampleOpened sampleFlushed throughPrimary)
      (sampleOpened sampleFlushed throughPrimary) ∧
    let stored :=
      wideLocation.store plainDigest .plain wideFiles (Cache.Image.encode Cache.plainParts 7)
    (stored.2.2.toBool, (wideLocation.load plainDigest stored.1 7).toBool) = (true, false) := by
  have tree : sampleFlushed.IsTree := by decide +kernel
  exact ⟨lost_throughGeneration,
    lost_of_cold rfl (by decide +kernel) tree (by decide +kernel) (by decide +kernel),
    lost_of_cold rfl (by decide +kernel) tree (by decide +kernel) (by decide +kernel),
    by decide +kernel⟩

end PluginRegistry.Registry
