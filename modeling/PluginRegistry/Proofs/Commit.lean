import PluginRegistry.Proofs.Manifests
import PluginRegistry.Proofs.Staging

/-!
# The replacement of the manifest

A plan that is made from a directory fits it (`Plan.fits_make`). With drafts of the plan a location
loads what it loaded before (`Plan.Pending.load_eq`). The move of the new manifest is the one step
that shows, and it puts the manifest where it can be read (`Plan.committed_of_move`). What is
removed after that is neither the manifest nor in the generation it names
(`Plan.Committed.load_eq`).
-/

namespace PluginRegistry.Cache

open FileSystem Generation

variable {fs : FileSystem} {base : Path}

/-! ## The plan that is made -/

theorem readDirectory_ok {names : List FileName} (h : fs.readDirectory base = .ok names) :
    fs.resolve base = .ok base.place ∧ fs.HasDirectory base.place ∧
      names = fs.names base.place := by
  unfold readDirectory at h
  obtain ⟨place, hopen, h⟩ := of_bind_ok h
  cases h
  obtain ⟨hresolve, hdirectory⟩ := openDirectory_ok hopen
  obtain ⟨-, rfl⟩ := resolve_ok hresolve
  exact ⟨hresolve, hdirectory, rfl⟩

theorem lookup_of_not_mem {names : List FileName} (h : fs.readDirectory base = .ok names)
    {n : FileName} (hn : n ∉ names) : fs.lookup (base.place ++ [n]) = none := by
  rw [(readDirectory_ok h).2.2, mem_names, Bool.not_eq_true, Option.isSome_eq_false_iff] at hn
  exact Option.isNone_iff_eq_none.mp hn

theorem lt_next {latest : UInt64} (h : latest.toNat + 1 < UInt64.size) {generation : UInt64}
    (hle : generation ≤ latest) : generation < latest + 1 := by
  have hnat := UInt64.le_iff_toNat_le.mp hle
  rw [UInt64.lt_iff_toNat_lt, UInt64.toNat_add, UInt64.toNat_one, Nat.mod_eq_of_lt h]
  omega

theorem Plan.fits_make {digest : DigestFunction} {chance : Chance} {names : List FileName}
    {image : Image}
    (hread : fs.readDirectory base = .ok names)
    (hroom : (latest fs base names).toNat + 1 < UInt64.size)
    (hsections : image.sections.map Prod.fst = Section.data) :
    (Plan.make digest chance fs base names image).Fits fs where
  staging := isHidden_staging chance names
  long := chance.size_name _ names
  temporary := isHidden_temporary chance names
  vacant n hn := by
    apply lookup_of_not_mem hread
    simp only [newNames, make, List.mem_cons, List.not_mem_nil, or_false] at hn
    rcases hn with rfl | rfl | rfl
    · exact chance.name_not_mem _ names
    · intro hmem
      exact UInt64.lt_irrefl _ (lt_next hroom (le_latest hmem (ofName?_name _)))
    · exact chance.name_not_mem _ names
  sections := hsections
  manifest := Manifest.read_back_ofImage digest _ hsections
  live := rfl
  stale n hn := (List.mem_filter.mp hn).2

/-! ## Filling the staging directory -/

namespace Plan

variable {plan : Plan} {last : FileSystem}

/-- What is known of a directory once the staging directory in it is filled. -/
structure Filled (plan : Plan) (fs : FileSystem) : Prop where
  enter : fs.CanEnter plan.base
  short : checkPath (manifestPath plan.base) = .ok ()

/-- A path that is not too long for a section in the staging directory is not too long for the
manifest. -/
theorem filled_of_fill {chance : Chance} {phase : Phase} (hstaging : IsHidden plan.staging)
    (hlong : (FileName.ofText stagingStem).size ≤ plan.staging.size)
    (hsections : plan.sections.map Prod.fst = Section.data)
    (h : chance.takeAll phase fs plan.fillSteps = (last, .ok ())) : plan.Filled fs := by
  constructor
  · obtain ⟨next, hmake, -⟩ := Chance.of_takeAll_cons h
    have hmake := of_attempt_ok hmake
    unfold makeDirectory at hmake
    obtain ⟨t, ht, -⟩ := of_bind_ok hmake
    exact canEnter_of_target hstaging.isName ht
  · have htable : Section.table ∈ plan.sections.map Prod.fst := by
      rw [hsections]
      decide
    obtain ⟨⟨s, bytes⟩, hs, hsection⟩ := List.mem_map.mp htable
    have hstep : .write (plan.stagingPath.child s.entry) bytes ∈ plan.fillSteps :=
      List.mem_cons_of_mem _ (List.mem_flatMap.mpr ⟨(s, bytes), hs, by simp [writeSteps]⟩)
    obtain ⟨here, next, hrun⟩ := Chance.run_of_takeAll_ok h hstep
    obtain ⟨hcheck, -⟩ := writeFile_ok (of_attempt_ok hrun)
    apply checkPath_child hstaging.isName hcheck (by decide)
    have hmanifest : Section.manifest.entry.size ≤
        (FileName.ofText stagingStem).size + 1 + s.entry.size := by
      rw [show s = Section.table from hsection]
      decide
    omega

end Plan

/-! ## The generation that was live -/

theorem readManifest_some {m : Manifest} : readManifest fs base = .ok (some m) ↔
    ∃ bytes, fs.read (manifestPath base) = .ok bytes ∧ Manifest.decode bytes = .ok m := by
  unfold readManifest
  cases hread : fs.read (manifestPath base) with
  | error e => cases e <;> simp
  | ok bytes =>
    cases hdecode : Manifest.decode bytes <;> simp [hdecode, Except.map]

/-- A manifest that was there is also read under another path of its directory. -/
theorem readManifest_other {other : Path} (henter : fs.CanEnter base)
    (hcheck : checkPath (manifestPath base) = .ok ()) (hother : other.place = base.place)
    (hfile : fs.isFile (manifestPath other) = true) {m : Manifest}
    (hm : readManifest fs other = .ok (some m)) : readManifest fs base = .ok (some m) := by
  have hname := isName_entry .manifest
  obtain ⟨bytes, hread, hdecode⟩ := readManifest_some.mp hm
  obtain ⟨hresolve, content, mode, hentry⟩ := isFile_iff.mp hfile
  have hresolve' : fs.resolve (manifestPath base) = .ok (manifestPath base).place :=
    henter.resolve hname (by decide) hcheck
  have hplace : (manifestPath base).place = (manifestPath other).place := by
    unfold manifestPath
    rw [Path.place_child _ hname, Path.place_child _ hname, hother]
  have hentry' : fs.lookup (manifestPath base).place = some (.file content mode) := by
    rw [hplace, hentry]
  have hstat : fs.stat (manifestPath base) = fs.stat (manifestPath other) := by
    rw [stat_of_lookup hresolve hentry, stat_of_lookup hresolve' hentry']
  refine readManifest_some.mpr ⟨bytes, ?_, hdecode⟩
  rw [← hread]
  unfold FileSystem.read
  rw [hstat]

/-! ## Up to the new manifest -/

/-- A plan for the primary directory of a location that is to be carried out. -/
structure Plan.Begins (plan : Plan) (l : Location) (fs : FileSystem) : Prop where
  primary : plan.base ∈ l.primary
  opens : ∃ place, fs.openDirectory plan.base = .ok place
  settled : l.Settled fs
  tree : fs.IsTree
  fits : plan.Fits fs
  next : ∀ m, readManifest fs plan.base = .ok (some m) → m.generation ≠ plan.generation

/-- A file system with drafts of a plan. The generation has its name only after all its sections
have been written. -/
inductive Plan.Pending (plan : Plan) (fs crash : FileSystem) : Prop
  | filling : Extends plan.base.place [plan.staging] fs crash → Pending plan fs crash
  | staged : plan.Filled fs → Extends plan.base.place plan.newNames fs crash →
      Pending plan fs crash

namespace Plan

variable {plan : Plan} {l : Location} {crash : FileSystem}

theorem Pending.load_eq (hpending : plan.Pending fs crash) (h : plan.Begins l fs)
    (digest : DigestFunction) (fingerprint : UInt64) :
    l.load digest crash fingerprint = l.load digest fs fingerprint := by
  have hnames := h.fits.ne_entry
  cases hpending with
  | filling hextends =>
    apply hextends.load_eq h.primary h.settled h.tree
    · intro n hn
      rw [List.mem_singleton.mp hn]
      exact hnames _ List.mem_cons_self
    · intro other _ m _ _ hmem
      exact h.fits.staging.ne_name _ (List.mem_singleton.mp hmem).symm
  | staged hfilled hextends =>
    apply hextends.load_eq h.primary h.settled h.tree hnames
    intro other hfile m hm hother hmem
    have hlive := readManifest_other hfilled.enter hfilled.short hother hfile hm
    simp only [newNames, List.mem_cons, List.not_mem_nil, or_false] at hmem
    rcases hmem with hmem | hmem | hmem
    · exact h.fits.staging.ne_name _ hmem.symm
    · exact h.next m hlive (name_inj hmem)
    · exact h.fits.temporary.ne_name _ hmem.symm

theorem Pending.extends_newNames (hpending : plan.Pending fs crash) :
    Extends plan.base.place plan.newNames fs crash := by
  cases hpending with
  | filling hextends => exact hextends.mono (by simp [newNames])
  | staged _ hextends => exact hextends

variable {chance : Chance}

theorem pending_fill (h : plan.Begins l fs) (chance : Chance) (phase : Phase) :
    ∀ crash ∈ fs :: chance.trace phase fs plan.fillSteps,
      Extends plan.base.place [plan.staging] fs crash :=
  Chance.trace_invariant (extends_fillStep h.fits h.tree chance phase) (Extends.refl _ _ _)

theorem pending_stageSteps (h : plan.Begins l fs) (chance : Chance) (phase : Phase) :
    ∀ crash ∈ fs :: chance.trace phase fs plan.stageSteps, plan.Pending fs crash := by
  have hfilling := pending_fill h chance phase
  have hlast := hfilling _ (chance.takeAll_mem_trace phase fs plan.fillSteps)
  rw [stageSteps, Chance.trace_append, ← List.cons_append]
  intro crash hmem
  rcases List.mem_append.mp hmem with hmem | hmem
  · exact .filling (hfilling crash hmem)
  · generalize hfill : chance.takeAll phase fs plan.fillSteps = done at hmem hlast
    obtain ⟨last, e | ⟨⟨⟩⟩⟩ := done
    · exact absurd hmem List.not_mem_nil
    · apply Pending.staged (filled_of_fill h.fits.staging h.fits.long h.fits.sections hfill)
      apply Chance.trace_invariant _ (hlast.mono (by simp [newNames])) crash
        (List.mem_cons_of_mem last hmem)
      intro step hstep files hfiles
      simp only [List.mem_cons, List.not_mem_nil, or_false] at hstep
      rcases hstep with rfl | rfl
      · exact Chance.take_of hfiles (fun _ => hfiles) chance phase
      · exact extends_rename h.fits h.tree hfiles chance phase

theorem fill_of_stageSteps {phase : Phase} {staged : FileSystem}
    (hstage : chance.takeAll phase fs plan.stageSteps = (staged, .ok ())) :
    ∃ last, chance.takeAll phase fs plan.fillSteps = (last, .ok ()) := by
  obtain ⟨last, hfill, -⟩ := Chance.of_takeAll_append hstage
  exact ⟨last, hfill⟩

theorem pending_removeStaging (h : plan.Begins l fs) (hpending : plan.Pending fs crash)
    (chance : Chance) (phase : Phase) :
    plan.Pending fs (chance.take phase crash (.removeTree plan.stagingPath)).1 := by
  cases hpending with
  | filling hextends =>
    exact .filling (extends_removeStaging h.fits h.tree hextends chance phase)
  | staged hfilled hextends =>
    exact .staged hfilled (extends_removeStaging h.fits h.tree hextends chance phase)

/-- Until the generation's directory is in place there are only drafts, and also after it. -/
theorem pending_stage (h : plan.Begins l fs) (chance : Chance) :
    ∀ crash ∈ fs :: chance.traceOrUndo .stage fs plan.stageSteps (.removeTree plan.stagingPath)
      plan.base, plan.Pending fs crash := by
  have hsteps := pending_stageSteps h chance .stage
  have hlast := hsteps _ (chance.takeAll_mem_trace .stage fs plan.stageSteps)
  unfold Chance.traceOrUndo
  generalize chance.takeAll .stage fs plan.stageSteps = done at hlast
  rw [← List.cons_append]
  refine List.forall_mem_append.mpr ⟨hsteps, fun crash hmem => ?_⟩
  obtain ⟨last, e | u⟩ := done
  · rw [List.mem_singleton.mp hmem]
    exact pending_removeStaging h hlast chance .undo
  · refine Chance.trace_invariant (fun step hstep files hfiles => ?_) hlast crash
      (List.mem_cons_of_mem last hmem)
    rw [List.mem_singleton.mp hstep]
    exact Chance.take_of hfiles (fun _ => hfiles) chance .stage

theorem filled_of_stage (h : plan.Begins l fs) {staged : FileSystem}
    (hstage : plan.stage chance fs = (staged, .ok ())) : plan.Filled fs := by
  have hsteps := (Chance.of_takeOrUndo_ok hstage).1
  obtain ⟨last, hfill⟩ := fill_of_stageSteps hsteps
  exact filled_of_fill h.fits.staging h.fits.long h.fits.sections hfill

end Plan

/-! ## The new manifest -/

/-- The manifest of a plan is in place. -/
structure Plan.Committed (plan : Plan) (fs : FileSystem) : Prop where
  resolve : fs.resolve (manifestPath plan.base) = .ok (manifestPath plan.base).place
  manifest : fs.lookup (manifestPath plan.base).place =
    some (.file plan.manifest.encode .ofPrivate)

namespace Plan

variable {plan : Plan} {l : Location} {last created moved : FileSystem}

theorem place_manifest (base : Path) :
    (manifestPath base).place = base.place ++ [Section.manifest.entry] :=
  Path.place_child base (isName_entry .manifest)

theorem lookup_of_commit (h : plan.Begins l fs)
    (hextends : Extends plan.base.place plan.newNames fs created)
    (hfile : ¬ created.HasDirectory (manifestPath plan.base).place) {v : Place}
    (hdirectory : fs.HasDirectory v) :
    (created.carry plan.temporaryPath.place (manifestPath plan.base).place).lookup v =
      fs.lookup v := by
  have hmanifest : ¬ (manifestPath plan.base).place <+: v := by
    intro hbelow
    apply hfile
    have hold : fs.HasDirectory (manifestPath plan.base).place := by
      by_cases heq : (manifestPath plan.base).place = v
      · exact heq ▸ hdirectory
      · obtain ⟨mode, hmode⟩ := hdirectory
        exact h.tree.hasDirectory hmode hbelow heq
    obtain ⟨mode, hmode⟩ := hold
    exact ⟨mode, hextends.keeps hmode⟩
  have htemporary : ¬ plan.temporaryPath.place <+: v := by
    intro hbelow
    rw [place_temporaryPath h.fits.temporary] at hbelow
    obtain ⟨mode, hmode⟩ := hdirectory
    rw [h.fits.lookup_below h.tree (by simp [newNames]) v hbelow] at hmode
    cases hmode
  rw [lookup_carry, if_neg hmanifest, if_neg htemporary]
  exact hextends.hasDirectory hdirectory

theorem lookup_of_draftSteps {chance : Chance} {phase : Phase} {staged : FileSystem}
    (h : chance.takeAll phase staged plan.draftSteps = (created, .ok ())) :
    created.lookup plan.temporaryPath.place =
      some (.file plan.manifest.encode .ofPrivate) := by
  obtain ⟨empty, hcreate, h⟩ := Chance.of_takeAll_cons h
  obtain ⟨written, hwrite, h⟩ := Chance.of_takeAll_cons h
  obtain ⟨synced, hsync, h⟩ := Chance.of_takeAll_cons h
  cases h
  cases hsync
  have hnew : empty.lookup plan.temporaryPath.place = some (.file [] .ofPrivate) := by
    obtain ⟨-, hput⟩ := createFile_ok (p := plan.temporaryPath) (of_attempt_ok hcreate)
    rw [hput, lookup_put, if_pos rfl]
  rw [writeFile_old (of_attempt_ok hwrite) hnew, lookup_put, if_pos rfl]

theorem committed_of_move (h : plan.Begins l fs) (hfilled : plan.Filled fs)
    (hextends : Extends plan.base.place plan.newNames fs created)
    (hcreated : created.lookup plan.temporaryPath.place =
      some (.file plan.manifest.encode .ofPrivate))
    (hmove : created.move plan.temporaryPath (manifestPath plan.base) = .ok moved) :
    plan.Committed moved ∧ ∀ v, fs.HasDirectory v → moved.lookup v = fs.lookup v := by
  rcases move_ok hmove with ⟨hsame, -⟩ | ⟨entry, hentry, -, -, hkind, rfl⟩
  · rw [place_temporaryPath h.fits.temporary, place_manifest] at hsame
    have hname := (List.cons.inj (List.append_cancel_left hsame)).1
    exact absurd hname (h.fits.temporary.ne_entry .manifest)
  · have hfile : ¬ created.HasDirectory (manifestPath plan.base).place := by
      rintro ⟨old, hold⟩
      rw [hcreated] at hentry
      cases hentry
      have := hkind _ hold
      cases this
    have hway : ∀ v, fs.HasDirectory v → _ := fun v => lookup_of_commit h hextends hfile (v := v)
    refine ⟨⟨?_, ?_⟩, hway⟩
    · apply CanEnter.resolve _ (isName_entry .manifest) (by decide) hfilled.short
      apply hfilled.enter.congr
      · exact fun v hv => hway v (hfilled.enter.hasDirectory (Or.inl hv))
      · exact hway _ (hfilled.enter.hasDirectory (Or.inr rfl))
    · rw [lookup_carry, if_pos (List.prefix_refl _), List.drop_length, List.append_nil, hcreated]

/-! ## Removing what is left over -/

/-- Nothing has changed but below what is left over. -/
def Kept (plan : Plan) (fs after : FileSystem) : Prop :=
  ∀ q, (∀ n ∈ plan.stale, ¬ plan.base.place ++ [n] <+: q) → after.lookup q = fs.lookup q

theorem kept_cleanStep (hstale : ∀ n ∈ plan.stale, isStale (some plan.generation) n = true)
    (committed : FileSystem) (chance : Chance) (phase : Phase) :
    ∀ step ∈ plan.cleanSteps, ∀ after, plan.Kept committed after →
      plan.Kept committed (chance.take phase after step).1 := by
  intro step hstep after h
  obtain ⟨n, hn, rfl⟩ := List.mem_map.mp hstep
  refine Chance.take_of (fun q hq => ?_) (fun _ => h) chance phase
  rw [← h q hq]
  rcases lookup_removeTree after (plan.base.child n) q with hsame | ⟨hbelow, -⟩
  · exact hsame
  · rw [Path.place_child _ (isName_of_isStale (hstale n hn))] at hbelow
    exact absurd hbelow (hq n hn)

variable {committed after : FileSystem}

theorem Kept.lookup_way (hkept : plan.Kept committed after)
    (hstale : ∀ n ∈ plan.stale, isStale (some plan.generation) n = true)
    (hleft : ∀ v ∈ plan.base.left, ∀ n, plan.base.place ++ [n] <+: v → isStale none n = false)
    {v : Place} (hv : v ∈ plan.base.passed ∨ v = plan.base.place) :
    after.lookup v = committed.lookup v := by
  apply hkept
  intro n hn hbelow
  have hgone := isStale_none (hstale n hn)
  rw [hleft v (Path.left_of_below hv hbelow) n hbelow] at hgone
  cases hgone

theorem Kept.lookup_entry (hkept : plan.Kept committed after)
    (hstale : ∀ n ∈ plan.stale, isStale (some plan.generation) n = true) {n : FileName}
    (hfresh : isStale (some plan.generation) n = false) (rest : List FileName) :
    after.lookup (plan.base.place ++ n :: rest) =
      committed.lookup (plan.base.place ++ n :: rest) := by
  apply hkept
  intro stale hmem hbelow
  rw [List.prefix_append_right_inj] at hbelow
  obtain ⟨more, hmore⟩ := hbelow
  have heq : stale = n := (List.cons.inj hmore).1
  rw [← heq, hstale stale hmem] at hfresh
  cases hfresh

theorem Kept.lookup_manifest (hkept : plan.Kept committed after) (h : plan.Begins l fs) :
    (∀ v ∈ (manifestPath plan.base).passed, after.lookup v = committed.lookup v) ∧
      after.lookup (manifestPath plan.base).place =
        committed.lookup (manifestPath plan.base).place := by
  constructor
  · intro v hv
    exact hkept.lookup_way h.fits.stale (h.settled.primary_kept h.primary)
      (Path.mem_passed_child.mp hv)
  · rw [place_manifest]
    exact hkept.lookup_entry h.fits.stale (isStale_manifest _) []

theorem Kept.read_section (hkept : plan.Kept committed after) (h : plan.Begins l fs)
    (s : Section) : after.read ((directory plan.base plan.generation).child s.entry) =
      committed.read ((directory plan.base plan.generation).child s.entry) := by
  have hlive := isStale_name plan.generation
  apply read_congr
  · intro v hv
    rcases Path.mem_passed_child.mp hv with hv | rfl
    · exact hkept.lookup_way h.fits.stale (h.settled.primary_kept h.primary)
        (Path.mem_passed_child.mp hv)
    · rw [Extends.place_directory]
      exact hkept.lookup_entry h.fits.stale hlive []
  · rw [Extends.place_section]
    exact hkept.lookup_entry h.fits.stale hlive [s.entry]

theorem Committed.isFile (h : plan.Committed committed) :
    committed.isFile (manifestPath plan.base) = true :=
  isFile_iff.mpr ⟨h.resolve, _, _, h.manifest⟩

theorem Committed.readManifest_eq (h : plan.Committed committed) (hplan : plan.Fits fs) :
    readManifest committed plan.base = .ok (some plan.manifest) :=
  readManifest_some.mpr ⟨_, read_of_lookup h.resolve h.manifest rfl, hplan.manifest⟩

/-- Removing what is left over does not change what is loaded. -/
theorem Committed.load_eq (hcommitted : plan.Committed committed) (h : plan.Begins l fs)
    (hkept : plan.Kept committed after) (digest : DigestFunction) (fingerprint : UInt64) :
    l.load digest after fingerprint = l.load digest committed fingerprint := by
  obtain ⟨hpassed, hplace⟩ := hkept.lookup_manifest h
  have hprobe : ∀ {files : FileSystem}, files.isFile (manifestPath plan.base) = true →
      l.probe files = some plan.base := by
    intro files hfiles
    have hprimary : l.primary = some plan.base := h.primary
    unfold Location.probe
    rw [hprimary]
    exact List.find?_cons_of_pos hfiles
  have hparts : loadParts digest after plan.base fingerprint =
      loadParts digest committed plan.base fingerprint := by
    apply loadParts_congr
    · unfold readManifest
      rw [read_congr hpassed hplace]
    · intro m hm s _
      rw [hcommitted.readManifest_eq h.fits] at hm
      cases hm
      rw [h.fits.live]
      exact hkept.read_section h s
  unfold Location.load
  rw [hprobe hcommitted.isFile, hprobe ((isFile_congr hpassed hplace).trans hcommitted.isFile)]
  dsimp only
  rw [hparts]

end Plan

end PluginRegistry.Cache
