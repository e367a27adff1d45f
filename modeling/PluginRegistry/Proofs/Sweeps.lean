import PluginRegistry.Proofs.Publications
import PluginRegistry.Proofs.Removals

/-!
# Generations that come and go

A generation that is stored has a number above all that its directory knew, and once nothing is
left over it is the only one there (`Stored`). A directory that is cleared holds no generation at
all (`Cleared`). In both cases everything else in the directory is as it was, and so is the
alternative directory of a location (`Location.exact_of_sweepable`). Where the path of the
directory steps back from what lies in a generation, that generation is not removed, and where it
steps back from a missing directory, storing makes that one too. Names that are not text count as
no generation and no staging directory (`Location.inexact_steppingBack`).
-/

namespace PluginRegistry.Cache

open FileSystem Generation

/-! ## What is swept -/

/-- The generations and staging directories in a directory are gone, and all its other entries are
as they were. Nothing is said about the names in use. -/
structure Swept (inUse : List FileName) (place : Place) (before after : FileSystem) : Prop where
  gone {n : FileName} : n ∉ inUse → isStale none n = true → ¬ after.HasDirectory (place ++ [n])
  same {n : FileName} : n ∉ inUse → (isStale none n = true → ¬ before.HasDirectory (place ++ [n])) →
    ∀ q, place ++ [n] <+: q → after.lookup q = before.lookup q

/-- An image was stored under a number above those of all generations there were, and nothing is
left of these. -/
structure Stored (image : Image) (generation : UInt64) (place : Place)
    (before after : FileSystem) : Prop where
  above_manifest {content : Bytes} {mode : Mode} {m : Manifest} :
    before.lookup (place ++ [Section.manifest.entry]) = some (.file content mode) →
      mode.isReadable = true → Manifest.decode content = .ok m → m.generation < generation
  above_names {n : FileName} {other : UInt64} : before.lookup (place ++ [n]) ≠ none →
    ofName? n = some other → other < generation
  manifest : ∃ content mode m,
    after.lookup (place ++ [Section.manifest.entry]) = some (.file content mode) ∧
      Manifest.decode content = .ok m ∧ m.generation = generation
  directory : after.HasDirectory (place ++ [name generation])
  sections : ∀ item ∈ image.sections, ∃ mode,
    after.lookup (place ++ [name generation, item.1.entry]) = some (.file item.2 mode)
  only : ∀ rest, after.lookup (place ++ name generation :: rest) ≠ none →
    rest = [] ∨ ∃ item ∈ image.sections, rest = [item.1.entry]
  swept : Swept [Section.manifest.entry, name generation] place before after

/-- No manifest and no generation is left. -/
structure Cleared (place : Place) (before after : FileSystem) : Prop where
  manifest : after.lookup (place ++ [Section.manifest.entry]) = none
  swept : Swept [Section.manifest.entry] place before after

/-- No removal of a directory was refused. What has the name of a generation but is a file may have
been. -/
def Unhindered (files : FileSystem) (records : List LogRecord) : Prop :=
  ∀ path reason, LogRecord.staleKept path reason ∈ records → ¬ files.HasDirectory path.place

instance (files : FileSystem) (records : List LogRecord) : Decidable (Unhindered files records) :=
  decidable_of_iff (records.all fun record => match record with
    | .staleKept path _ => !(files.lookup path.place).any FileEntry.isDirectory
    | _ => true) (by
      simp only [Unhindered, hasDirectory_iff, List.all_eq_true]
      constructor
      · intro h path reason hmem
        simpa using h _ hmem
      · intro h record hmem
        cases record with
        | staleKept path reason => simpa using h path reason hmem
        | _ => rfl)

/-- The path of a cache directory does not step back from what lies in a generation or a staging
directory of its own. -/
def Sweepable (base : Path) : Prop :=
  ∀ v ∈ base.left, ∀ n, isStale none n = true → base.place ++ [n] <+: v →
    v = base.place ++ [n]

namespace Location

/-- Nothing has changed in an alternative directory that is not below or above the primary one. -/
def Spares (l : Location) (before after : FileSystem) : Prop :=
  ∀ base ∈ l.primary, ∀ other ∈ l.alternative, ¬ base.place <+: other.place →
    ¬ other.place <+: base.place → ∀ q, other.place <+: q → after.lookup q = before.lookup q

/-- Whatever is stored is stored under a new number, alone in the primary directory and without a
change elsewhere, if there is room for one more generation and nothing is refused. -/
def StoresExactly (digest : DigestFunction) (chance : Chance) (l : Location)
    (files : FileSystem) : Prop :=
  ∀ base ∈ l.primary, ∀ parts fingerprint generation,
    let image := Image.encode parts fingerprint
    let (after, records, result) := l.store digest chance files image
    l.HasRoom files → result = .ok generation → Unhindered files records →
      Stored image generation base.place files after ∧ l.Spares files after

/-- Whatever is cleared leaves no generation and changes nothing elsewhere, if nothing is refused
and a primary directory that is there can be read. -/
def ClearsExactly (chance : Chance) (l : Location) (files : FileSystem) : Prop :=
  ∀ base ∈ l.primary,
    let (after, records, result) := l.clear chance files
    (files.HasDirectory base.place → ∃ names, files.readDirectory base = .ok names) →
      result = .ok () → Unhindered files records →
        Cleared base.place files after ∧ l.Spares files after

end Location

variable {base : Path} {files before during after : FileSystem} {names : List FileName}
  {refused : List (Path × FileError)}

/-- What has the name of a generation or a staging directory and was refused to be removed is not
a directory. -/
def OnlyFilesRefused (refused : List (Path × FileError)) (base : Path) (files : FileSystem) :
    Prop :=
  ∀ n, isStale none n = true → ∀ reason, (base.child n, reason) ∈ refused →
    ¬ files.HasDirectory (base.place ++ [n])

theorem Unhindered.onlyFilesRefused {records : List LogRecord} (h : Unhindered files records)
    (hrecords : ∀ path reason, (path, reason) ∈ refused → .staleKept path reason ∈ records) :
    OnlyFilesRefused refused base files := by
  intro n hn reason hmem
  rw [← Path.place_child base (isName_of_isStale hn)]
  exact h _ reason (hrecords _ _ hmem)

theorem Swept.congr {inUse : List FileName} {place : Place} {first : FileSystem}
    (h : Swept inUse place before after)
    (hsame : ∀ n q, place ++ [n] <+: q → before.lookup q = first.lookup q) :
    Swept inUse place first after where
  gone := h.gone
  same {n} hn hnot q hq := by
    rw [← hsame n q hq]
    apply h.same hn _ q hq
    rwa [hasDirectory_congr (hsame n _ (List.prefix_refl _))]

namespace Removed

theorem lookup_of_not_mem (h : Removed base names before after refused) {n : FileName}
    (hn : n ∉ names) {q : Place} (hq : base.place ++ [n] <+: q) :
    after.lookup q = before.lookup q := by
  rcases h.within q with hsame | ⟨⟨m, hm, hbelow⟩, -⟩
  · exact hsame
  · exact absurd (name_eq_of_below hbelow hq ▸ hm) hn

theorem lookup_beside (h : Removed base names before after refused) {q : Place}
    (hq : ∀ n, ¬ base.place ++ [n] <+: q) : after.lookup q = before.lookup q := by
  rcases h.within q with hsame | ⟨⟨m, -, hbelow⟩, -⟩
  · exact hsame
  · exact absurd hbelow (hq m)

/-- If all generations and staging directories were to be removed, and no removal of a directory
was refused, the directory is swept. -/
theorem swept (h : Removed base names during after refused) {inUse : List FileName}
    (hduring : ∀ n ∉ inUse, ∀ q, base.place ++ [n] <+: q → during.lookup q = before.lookup q)
    (hstale : ∀ n ∈ names, isStale none n = true)
    (hall : ∀ n ∉ inUse, isStale none n = true → before.HasDirectory (base.place ++ [n]) →
      n ∈ names)
    (hrefused : OnlyFilesRefused refused base before) : Swept inUse base.place before after where
  gone {n} hn hname hafter := by
    rcases h.within (base.place ++ [n]) with hsame | ⟨-, hnone⟩
    · rw [hasDirectory_congr hsame,
        hasDirectory_congr (hduring n hn _ (List.prefix_refl _))] at hafter
      have hnone := h.gone (hall n hn hname hafter)
        (fun reason hmem => hrefused n hname reason hmem hafter) _ (List.prefix_refl _)
      rw [hsame, hduring n hn _ (List.prefix_refl _)] at hnone
      exact hafter.lookup_ne_none hnone
    · exact hafter.lookup_ne_none hnone
  same {n} hn hnot q hq := by
    rw [← hduring n hn q hq]
    by_cases hmem : n ∈ names
    · apply h.kept _ q hq
      rw [hasDirectory_congr (hduring n hn _ (List.prefix_refl _))]
      exact hnot (hstale n hmem)
    · exact h.lookup_of_not_mem hmem hq

end Removed

theorem sweepable_of_no_steps_back (h : ↑".." ∉ base.parts) : Sweepable base := by
  intro v hv
  rw [Path.left, Path.leaves_eq_nil _ h] at hv
  exact absurd hv List.not_mem_nil

/-- A way that steps back only where it may is not cut off by removing generations. -/
theorem Sweepable.way (h : Sweepable base) {n : FileName} (hn : isStale none n = true)
    {v : Place} (hv : v ∈ base.passed) (hbelow : base.place ++ [n] <+: v) :
    v = base.place ++ [n] :=
  h v (Path.left_of_below (.inl hv) hbelow) n hn hbelow

/-! ## Storing -/

theorem Stored.congr {image : Image} {generation : UInt64} {place : Place} {first : FileSystem}
    (h : Stored image generation place before after)
    (hsame : ∀ n q, place ++ [n] <+: q → before.lookup q = first.lookup q) :
    Stored image generation place first after where
  above_manifest hfile := h.above_manifest ((hsame _ _ (List.prefix_refl _)).trans hfile)
  above_names {n _} hn := h.above_names (hsame n _ (List.prefix_refl _) ▸ hn)
  manifest := h.manifest
  directory := h.directory
  sections := h.sections
  only := h.only
  swept := h.swept.congr hsame

section

variable {digest : DigestFunction} {chance : Chance} {image : Image} {fs : FileSystem}

theorem lt_of_ofName? (hread : fs.readDirectory base = .ok names)
    (hroom : (latest fs base names).toNat + 1 < UInt64.size) {n : FileName} {other : UInt64}
    (hn : fs.lookup (base.place ++ [n]) ≠ none) (hother : ofName? n = some other) :
    other < latest fs base names + 1 := by
  apply lt_next hroom
  apply le_latest _ hother
  by_contra hmem
  exact hn (lookup_of_not_mem hread hmem)

theorem lt_of_decode (henter : fs.CanEnter base) (hcheck : checkPath (manifestPath base) = .ok ())
    (hroom : (latest fs base names).toNat + 1 < UInt64.size) {content : Bytes} {mode : Mode}
    {m : Manifest} (hfile : fs.lookup (base.place ++ [Section.manifest.entry]) =
      some (.file content mode)) (hmode : mode.isReadable = true)
    (hdecode : Manifest.decode content = .ok m) : m.generation < latest fs base names + 1 := by
  apply lt_next hroom
  apply live_le_latest
  rw [← Plan.place_manifest] at hfile
  have hresolve := henter.resolve (isName_entry .manifest) (by decide) hcheck
  exact readManifest_some.mpr ⟨content, read_of_lookup hresolve hfile hmode, hdecode⟩

variable {plan : Plan}

theorem Plan.swept_of_removed (hplan : plan = make digest chance fs plan.base names image)
    (hread : fs.readDirectory plan.base = .ok names)
    (hroom : (latest fs plan.base names).toNat + 1 < UInt64.size)
    (hcommitted : ∀ q, ¬ plan.base.place ++ [name plan.generation] <+: q →
      ¬ plan.base.place ++ [Section.manifest.entry] <+: q → during.lookup q = fs.lookup q)
    (hremoved : Removed plan.base plan.stale during after refused)
    (hrefused : OnlyFilesRefused refused plan.base fs) :
    Swept [Section.manifest.entry, name plan.generation] plan.base.place fs after := by
  have hgeneration : plan.generation = latest fs plan.base names + 1 :=
    congrArg Plan.generation hplan
  have hstale : plan.stale = (chance.order names).filter (isStale (some plan.generation)) := by
    rw [hgeneration]
    exact congrArg Plan.stale hplan
  apply hremoved.swept _ _ _ hrefused
  · intro n hn q hq
    simp only [List.mem_cons, List.not_mem_nil, or_false, not_or] at hn
    exact hcommitted q (fun hbelow => hn.2 (name_eq_of_below hq hbelow))
      fun hbelow => hn.1 (name_eq_of_below hq hbelow)
  · intro n hn
    rw [hstale] at hn
    exact isStale_none (List.mem_filter.mp hn).2
  · intro n _ hname hdirectory
    have hthere := hdirectory.lookup_ne_none
    rw [hstale]
    refine List.mem_filter.mpr ⟨(chance.order_perm names).mem_iff.mpr
      (by_contra fun hmem => hthere (lookup_of_not_mem hread hmem)), ?_⟩
    -- a number that was there is not the new one
    unfold isStale at hname ⊢
    cases hother : ofName? n with
    | none => rwa [hother] at hname
    | some other =>
      have hlt := lt_of_ofName? hread hroom hthere hother
      rw [← hgeneration] at hlt
      simpa using UInt64.ne_of_lt hlt

theorem Plan.stored_of_publish (hplan : plan = make digest chance fs plan.base names image)
    (tree : fs.IsTree) (hread : fs.readDirectory plan.base = .ok names)
    (hroom : (latest fs plan.base names).toNat + 1 < UInt64.size)
    (hsections : image.sections.map Prod.fst = Section.data)
    (sweepable : Sweepable plan.base) {generation : UInt64}
    (hok : (plan.publish chance fs).result = .ok generation)
    (hrefused : OnlyFilesRefused (plan.publish chance fs).refused plan.base fs) :
    Stored image generation plan.base.place fs (plan.publish chance fs).files ∧
      ∀ q, (∀ n, ¬ plan.base.place ++ [n] <+: q) →
        (plan.publish chance fs).files.lookup q = fs.lookup q := by
  have hfits : plan.Fits fs := by
    have hmake : (make digest chance fs plan.base names image).Fits fs :=
      fits_make hread hroom hsections
    rwa [← hplan] at hmake
  have hgeneration : plan.generation = latest fs plan.base names + 1 :=
    congrArg Plan.generation hplan
  have hitems : plan.sections = image.sections := congrArg Plan.sections hplan
  obtain ⟨rfl, staged, committed, hstage, hcommit, hfiles, hkept⟩ := of_publish_ok hok
  obtain ⟨last, hfill⟩ := fill_of_stageSteps hstage
  have hfilled := filled_of_fill hfits.staging hfits.long hfits.sections hfill
  obtain ⟨hmanifest, hinPlace, -, hframe⟩ :=
    lookup_after_commit (hfits.ready tree) hstage hcommit
  have hremoved : Removed plan.base plan.stale committed
      (chance.takeEach .clean committed plan.cleanSteps).1
      (chance.takeEach .clean committed plan.cleanSteps).2 :=
    chance.removed_takeEach .clean (fun n hn => isName_of_isStale (hfits.stale n hn))
      (fun n hn v => sweepable.way (isStale_none (hfits.stale n hn))) committed
  have hlive : ∀ n, isStale (some plan.generation) n = false → n ∉ plan.stale := by
    intro n hn hmem
    rw [hfits.stale n hmem] at hn
    cases hn
  have hafter := hinPlace.congr fun rest => hremoved.lookup_of_not_mem
    (hlive _ (isStale_name _)) (prefix_entry_iff.mpr rfl)
  rw [hfiles]
  rw [hkept] at hrefused
  refine ⟨?_, fun q hq => ?_⟩
  · exact
      { above_manifest := fun hfile hmode hdecode => hgeneration ▸
          lt_of_decode hfilled.enter hfilled.short hroom hfile hmode hdecode
        above_names := fun hn hother => hgeneration ▸ lt_of_ofName? hread hroom hn hother
        manifest := ⟨_, _, _, (hremoved.lookup_of_not_mem (hlive _ (isStale_manifest _))
          (List.prefix_refl _)).trans hmanifest, hfits.manifest, hfits.live⟩
        directory := ⟨_, hafter.directory⟩
        sections := fun item hitem => ⟨_, hafter.sections item (hitems ▸ hitem)⟩
        only := hitems ▸ hafter.only
        swept := swept_of_removed hplan hread hroom hframe hremoved hrefused }
  · rw [hremoved.lookup_beside hq, hframe q (hq _) (hq _)]

end

/-! ## Clearing -/

variable {chance : Chance}

theorem of_unpublish_ok (h : (unpublish chance files base).2.2 = .ok ()) :
    ∃ next, (files.removeFile (manifestPath base) = .ok next ∨
        files.removeFile (manifestPath base) = .error .notFound ∧ next = files) ∧
      (unpublish chance files base).1 =
        (chance.takeEach .clean next (clearSteps chance next base)).1 ∧
      (unpublish chance files base).2.1 =
        (chance.takeEach .clean next (clearSteps chance next base)).2 := by
  unfold unpublish Chance.take at h ⊢
  dsimp only at h ⊢
  cases hrefuses : chance.refuses .commit (.removeFile (manifestPath base)) with
  | some refusal =>
    rw [hrefuses] at h
    cases h
  | none =>
    rw [hrefuses] at h
    unfold FileStep.run at h ⊢
    dsimp only at h ⊢
    cases hremove : files.removeFile (manifestPath base) with
    | ok next => exact ⟨next, .inl rfl, rfl, rfl⟩
    | error e =>
      rw [hremove] at h
      cases e with
      | notFound => exact ⟨files, .inr ⟨rfl, rfl⟩, rfl, rfl⟩
      | _ => cases h

theorem lookup_of_removeManifest (tree : files.IsTree)
    (hleft : files.HasDirectory base.place → ∀ v ∈ base.left, files.lookup v ≠ none)
    {next : FileSystem} (h : files.removeFile (manifestPath base) = .ok next ∨
      files.removeFile (manifestPath base) = .error .notFound ∧ next = files) :
    next.lookup (base.place ++ [Section.manifest.entry]) = none ∧
      (∀ q, ¬ base.place ++ [Section.manifest.entry] <+: q →
        next.lookup q = files.lookup q) ∧
      ∀ v, files.HasDirectory v → next.lookup v = files.lookup v := by
  rcases h with hremove | ⟨hmissing, rfl⟩
  · obtain ⟨⟨content, mode, hfile⟩, rfl⟩ := removeFile_ok hremove
    rw [Plan.place_manifest] at hfile ⊢
    have hframe : ∀ q, ¬ base.place ++ [Section.manifest.entry] <+: q →
        (files.dropTree (base.place ++ [Section.manifest.entry])).lookup q =
          files.lookup q := by
      intro q hq
      rw [lookup_dropTree, if_neg fun hpre => hq (List.isPrefixOf_iff_prefix.mp hpre)]
    refine ⟨?_, hframe, fun v ⟨other, hv⟩ => hframe v fun hbelow => ?_⟩
    · rw [lookup_dropTree, if_pos (List.isPrefixOf_iff_prefix.mpr (List.prefix_refl _))]
    · -- nothing lies below a file
      by_cases heq : base.place ++ [Section.manifest.entry] = v
      · rw [← heq, hfile] at hv
        cases hv
      · obtain ⟨_, hdirectory⟩ := tree.hasDirectory hv hbelow heq
        rw [hfile] at hdirectory
        cases hdirectory
  · refine ⟨?_, fun _ _ => rfl, fun _ _ => rfl⟩
    by_contra hthere
    obtain ⟨entry, hentry⟩ := Option.ne_none_iff_exists'.mp hthere
    have hdirectory := tree.hasDirectory hentry (List.prefix_append base.place _) (by simp)
    exact hthere (lookup_of_removeFile_notFound tree (isName_entry .manifest)
      (hleft hdirectory) hmissing)

theorem mem_staleIn {next : FileSystem} (hread : files.readDirectory base = .ok names)
    (hsame : ∀ v, files.HasDirectory v → next.lookup v = files.lookup v) {n : FileName} :
    n ∈ staleIn chance next base ↔
      next.lookup (base.place ++ [n]) ≠ none ∧ isStale none n = true := by
  obtain ⟨hresolve, hdirectory, -⟩ := readDirectory_ok hread
  have hopen : next.readDirectory base = .ok (next.names base.place) := by
    unfold readDirectory at hread ⊢
    rw [openDirectory_congr (fun v hv => hsame v ((resolve_ok hresolve).1 v hv))
      (hsame _ hdirectory)]
    obtain ⟨place, hopen, -⟩ := of_bind_ok hread
    obtain ⟨-, rfl⟩ := resolve_ok (openDirectory_ok hopen).1
    rw [hopen]
    rfl
  unfold staleIn
  rw [hopen]
  dsimp only
  rw [List.mem_filter, (chance.order_perm _).mem_iff, mem_names, Option.isSome_iff_ne_none]

theorem isStale_of_mem_staleIn {n : FileName} (h : n ∈ staleIn chance files base) :
    isStale none n = true := by
  unfold staleIn at h
  split at h
  · exact (List.mem_filter.mp h).2
  · cases h

theorem cleared_of_unpublish (tree : files.IsTree) (sweepable : Sweepable base)
    (hread : files.HasDirectory base.place → ∃ names, files.readDirectory base = .ok names)
    (hok : (unpublish chance files base).2.2 = .ok ())
    (hrefused : OnlyFilesRefused (unpublish chance files base).2.1 base files) :
    Cleared base.place files (unpublish chance files base).1 ∧
      ∀ q, (∀ n, ¬ base.place ++ [n] <+: q) →
        (unpublish chance files base).1.lookup q = files.lookup q := by
  obtain ⟨next, hnext, hlast, hkept⟩ := of_unpublish_ok hok
  have hleft : files.HasDirectory base.place → ∀ v ∈ base.left, files.lookup v ≠ none := by
    intro hdirectory v hv
    obtain ⟨names, hread⟩ := hread hdirectory
    exact ((resolve_ok (readDirectory_ok hread).1).1 v (Path.passes_of_leaves hv)).lookup_ne_none
  obtain ⟨hgone, hframe, hsame⟩ := lookup_of_removeManifest tree hleft hnext
  have hstale : ∀ n ∈ staleIn chance next base, isStale none n = true :=
    fun n hn => isStale_of_mem_staleIn hn
  have hremoved : Removed base (staleIn chance next base) next
      (chance.takeEach .clean next (clearSteps chance next base)).1
      (chance.takeEach .clean next (clearSteps chance next base)).2 :=
    chance.removed_takeEach .clean (fun n hn => isName_of_isStale (hstale n hn))
      (fun n hn v => sweepable.way (hstale n hn)) next
  have hmanifest : Section.manifest.entry ∉ staleIn chance next base := by
    intro hmem
    have hname := hstale _ hmem
    rw [isStale_manifest] at hname
    cases hname
  rw [hkept] at hrefused
  rw [hlast]
  refine ⟨⟨?_, hremoved.swept (fun n hn q hq => hframe q fun hbelow => hn ?_) hstale ?_ hrefused⟩,
    fun q hq => ?_⟩
  · rw [hremoved.lookup_of_not_mem hmanifest (List.prefix_refl _), hgone]
  · exact List.mem_singleton.mpr (name_eq_of_below hq hbelow)
  · intro n _ hn hdirectory
    obtain ⟨mode, hmode⟩ := hdirectory
    obtain ⟨names, hread⟩ := hread
      (tree.hasDirectory hmode (List.prefix_append _ _) (by simp))
    refine (mem_staleIn hread hsame).mpr ⟨?_, hn⟩
    rw [hsame _ ⟨mode, hmode⟩]
    exact HasDirectory.lookup_ne_none ⟨mode, hmode⟩
  · rw [hremoved.lookup_beside hq, hframe q (hq _)]

/-! ## Locations -/

theorem Location.spares_of_above {l : Location} (hbase : base ∈ l.primary)
    (h : ∀ q, (∀ n, ¬ base.place ++ [n] <+: q) →
      after.lookup q = before.lookup q ∨ q <+: base.place) : l.Spares before after := by
  intro primary hprimary other _ hbelow habove q hq
  obtain rfl := Option.mem_unique hbase hprimary
  have hbeside : ∀ n, ¬ base.place ++ [n] <+: q := by
    intro n hn
    rcases List.prefix_or_prefix_of_prefix ((List.prefix_append _ [n]).trans hn) hq with h | h
    · exact hbelow h
    · exact habove h
  exact (h q hbeside).resolve_right fun hpre => habove (hq.trans hpre)

theorem Location.stored_of_store {digest : DigestFunction} {l : Location} {image : Image}
    (hbase : base ∈ l.primary) (tree : files.IsTree) (sweepable : Sweepable base)
    (hthere : ∀ v ∈ base.left, files.lookup v ≠ none) (hroom : l.HasRoom files)
    (hsections : image.sections.map Prod.fst = Section.data)
    {generation : UInt64} (hstore : (l.store digest chance files image).2.2 = .ok generation)
    (unhindered : Unhindered files (l.store digest chance files image).2.1) :
    Stored image generation base.place files (l.store digest chance files image).1 ∧
      l.Spares files (l.store digest chance files image).1 := by
  obtain ⟨primary, made, names, hprimary, hmade, hread, hok, hfiles, hlog⟩ := of_store_ok hstore
  obtain rfl := Option.mem_unique hbase hprimary
  obtain ⟨hextends, hmadeTree⟩ := extends_makeDirectories tree hthere
  have hlast := hroom.latest_lt hbase (hmade ▸ hread)
  rw [hmade] at hextends hmadeTree hlast
  rw [hfiles]
  rw [hlog] at unhindered
  obtain ⟨plan, hplan, rfl⟩ : ∃ plan, plan = Plan.make digest chance made base names image ∧
    plan.base = base := ⟨_, rfl, rfl⟩
  rw [← hplan] at hok unhindered ⊢
  have hsame : ∀ n q, plan.base.place ++ [n] <+: q → made.lookup q = files.lookup q := by
    intro n q hq
    rcases hextends.lookup_above q with hsame | ⟨-, habove, -⟩
    · exact hsame
    · exact absurd (hq.trans habove) not_below_self
  have hrefused : OnlyFilesRefused (plan.publish chance made).refused plan.base made := by
    intro n hn reason hmem
    rw [hasDirectory_congr (hsame n _ (List.prefix_refl _))]
    refine unhindered.onlyFilesRefused (fun path reason hmem => ?_) n hn reason hmem
    exact List.mem_append_left _ (List.mem_append_right _ (List.mem_map.mpr ⟨_, hmem, rfl⟩))
  obtain ⟨hstored, hbeside⟩ := Plan.stored_of_publish hplan hmadeTree hread hlast hsections
    sweepable hok hrefused
  refine ⟨hstored.congr hsame, spares_of_above hbase fun q hq => ?_⟩
  rw [hbeside q hq]
  exact (hextends.lookup_above q).imp_right fun h => h.2.1

theorem Location.cleared_of_clear {l : Location} (hbase : base ∈ l.primary) (tree : files.IsTree)
    (sweepable : Sweepable base)
    (hread : files.HasDirectory base.place → ∃ names, files.readDirectory base = .ok names)
    (hclear : (l.clear chance files).2.2 = .ok ())
    (unhindered : Unhindered files (l.clear chance files).2.1) :
    Cleared base.place files (l.clear chance files).1 ∧
      l.Spares files (l.clear chance files).1 := by
  unfold Location.clear at hclear unhindered ⊢
  cases htarget : l.target? with
  | none =>
    rw [htarget] at hclear
    cases hclear
  | some primary =>
    obtain rfl := Option.mem_unique hbase (mem_primary_of_target? htarget)
    rw [htarget] at hclear unhindered
    obtain ⟨hcleared, hbeside⟩ := cleared_of_unpublish tree sweepable hread hclear
      (unhindered.onlyFilesRefused fun path reason hmem => List.mem_map.mpr ⟨_, hmem, rfl⟩)
    exact ⟨hcleared, spares_of_above hbase fun q hq => .inl (hbeside q hq)⟩

/-- Storing and clearing are exact where the primary path can be swept; for storing it must not
step back from a directory that is missing either. -/
theorem Location.exact_of_sweepable (digest : DigestFunction) (chance : Chance) {l : Location}
    (tree : files.IsTree) (sweepable : ∀ base ∈ l.primary, Sweepable base) :
    ((∀ base ∈ l.primary, ∀ v ∈ base.left, files.lookup v ≠ none) →
      l.StoresExactly digest chance files) ∧ l.ClearsExactly chance files :=
  ⟨fun hthere base hbase _ _ _ hroom hstore unhindered =>
      stored_of_store hbase tree (sweepable base hbase) (hthere base hbase) hroom rfl hstore
        unhindered,
    fun base hbase hread hclear unhindered =>
      cleared_of_clear hbase tree (sweepable base hbase) hread hclear unhindered⟩

/-! ## Small directories -/

/-- A generation whose number is spelled with zeros in front, and another directory beside. -/
def spelledFiles : FileSystem where
  entries := [([], .directory .ofDirectory), (["p"], .directory .ofDirectory),
    (["p", "gen-007"], .directory .ofDirectory), (["p", "gen-007", "notes"], .file [1] .ofFile),
    (["q"], .directory .ofDirectory), (["q", "gen-1"], .directory .ofDirectory)]

def spelledLocation : Location where
  primary := some ⟨["p"]⟩
  alternative := some ⟨["q"]⟩
  readOnly := false

theorem Location.exact_spelledLocation : spelledFiles.IsTree ∧
    Stored (Image.encode plainParts 9) 8 ["p"] spelledFiles
      (spelledLocation.store plainDigest .plain spelledFiles (Image.encode plainParts 9)).1 ∧
    Cleared ["p"] spelledFiles (spelledLocation.clear .plain spelledFiles).1 ∧
    spelledLocation.Spares spelledFiles (spelledLocation.clear .plain spelledFiles).1 := by
  have tree : spelledFiles.IsTree := by decide
  obtain ⟨hstores, hclears⟩ := Location.exact_of_sweepable plainDigest .plain
    (l := spelledLocation) tree
    (by rintro base ⟨⟩; exact sweepable_of_no_steps_back (by decide))
  have hstored := hstores (by rintro base ⟨⟩ v hv; cases hv) _ rfl plainParts 9 8
    (by decide +kernel) (of_toOption_ok (by decide +kernel)) (by decide +kernel)
  have hcleared := hclears _ rfl (fun _ => ⟨_, rfl⟩) (of_toOption_ok (by decide +kernel))
    (by decide +kernel)
  exact ⟨tree, hstored.1, hcleared⟩

/-- The primary path steps back from what lies in a generation. -/
def withinGeneration : Location where
  primary := some ⟨["p", "gen-1", "x", "..", ".."]⟩
  alternative := none
  readOnly := false

def occupiedFiles : FileSystem :=
  ⟨plainEntries .ofDirectory ++ [((["p", "gen-1", "x"] : Place), .directory .ofDirectory)]⟩

def emptyFiles : FileSystem :=
  ⟨[([], .directory .ofDirectory), (["p"], .directory .ofDirectory)]⟩

/-- The primary path steps back from a missing directory in the alternative one. -/
def throughAlternative : Location where
  primary := some ⟨["q", "x", "..", "..", "p"]⟩
  alternative := some ⟨["q"]⟩
  readOnly := false

/-- A name that begins like that of a staging directory and is not text. -/
def strayName : FileName := ⟨(FileName.ofText stagingStem).bytes ++ [0xff]⟩

def strayFiles : FileSystem where
  entries := [([], .directory .ofDirectory), (["p"], .directory .ofDirectory),
    (["p", strayName], .directory .ofDirectory)]

/-- Storing and clearing succeed and nothing is refused, but a directory in the primary one stays
that has the stem of staging directories in its name. -/
structure Location.Overlooks (l : Location) (files : FileSystem) (place : Place) (n : FileName) :
    Prop where
  stem : (FileName.ofText stagingStem).bytes <+: n.bytes
  primary : (l.primary.map Path.place) = some place
  stored :
    let (after, records, result) := l.store plainDigest .plain files (.encode plainParts 9)
    result.toBool = true ∧ Unhindered files records ∧
      (after.lookup (place ++ [n])).any FileEntry.isDirectory = true
  cleared :
    let (after, records, result) := l.clear .plain files
    result.toBool = true ∧ Unhindered files records ∧
      (after.lookup (place ++ [n])).any FileEntry.isDirectory = true

/-- A generation that the path leads through from inside stays, whether an image is stored or the
cache is cleared; a missing directory that the path steps back from is made, in the primary
directory or in the alternative one; and a directory whose name is not text stays whatever that
begins like. -/
theorem Location.inexact_steppingBack :
    (occupiedFiles.IsTree ∧ ¬ withinGeneration.StoresExactly plainDigest .plain occupiedFiles ∧
      ¬ withinGeneration.ClearsExactly .plain occupiedFiles) ∧
    (emptyFiles.IsTree ∧ ¬ steppingPrimary.StoresExactly plainDigest .plain emptyFiles) ∧
    (spelledFiles.IsTree ∧ ¬ throughAlternative.StoresExactly plainDigest .plain spelledFiles) ∧
    strayFiles.IsTree ∧ spelledLocation.Overlooks strayFiles ["p"] strayName := by
  refine ⟨⟨by decide, fun h => ?_, fun h => ?_⟩, ⟨by decide, fun h => ?_⟩,
    ⟨by decide, fun h => ?_⟩, by decide, ⟨List.prefix_append _ _, rfl, by decide +kernel,
      by decide +kernel⟩⟩
  · have hstored := h _ rfl plainParts 9 2 (by decide +kernel) (of_toOption_ok (by decide +kernel))
      (by decide +kernel)
    exact hstored.1.swept.gone (n := "gen-1") (by decide) (by decide)
      (hasDirectory_iff.mpr (by decide +kernel))
  · have hcleared := h _ rfl (fun _ => ⟨_, rfl⟩) (of_toOption_ok (by decide +kernel))
      (by decide +kernel)
    exact hcleared.1.swept.gone (n := "gen-1") (by decide) (by decide)
      (hasDirectory_iff.mpr (by decide +kernel))
  · have hstored := h _ rfl plainParts 9 1 (by decide +kernel) (of_toOption_ok (by decide +kernel))
      (by decide +kernel)
    have hsame := hstored.1.swept.same (n := "x") (by decide) (fun hn => absurd hn (by decide)) _
      (List.prefix_refl _)
    revert hsame
    decide +kernel
  · have hstored := h _ rfl plainParts 9 8 (by decide +kernel) (of_toOption_ok (by decide +kernel))
      (by decide +kernel)
    have hsame := hstored.2 _ rfl _ rfl (by decide) (by decide) ["q", "x"] (by decide)
    revert hsame
    decide +kernel

end PluginRegistry.Cache
