import PluginRegistry.Proofs.Commit

/-!
# Publications that are cut short

A publication passes through file systems with drafts up to the one in which the manifest is
replaced, and from there on nothing that is loaded changes (`Plan.load_of_trace`). So storing an
image is all or nothing (`Location.allOrNothing_of_settled`), as long as the publication does not
change what the paths of the location name (`Location.Settled`). Where it does, what is loaded can
be neither the old nor the new (`Location.not_allOrNothing_unsettled`).
-/

namespace PluginRegistry.Cache

open FileSystem Generation

/-- The device refuses the sync of a directory behind the move of the manifest. -/
def SyncRefused (chance : Chance) (base : Path) (e : Error) : Prop :=
  ∃ refusal, chance.refuses .commit (.syncDirectory base) = some refusal ∧
    e = .file base (.device refusal.reason)

namespace Plan

variable {plan : Plan} {l : Location} {fs staged : FileSystem}

/-! ## One plan -/

theorem files_of_move_refused {chance : Chance} {phase : Phase} {files next : FileSystem}
    {source target : Path} {e : FileError}
    (h : chance.take phase files (.move source target) = (next, .error e)) : next = files := by
  unfold Chance.take at h
  cases hrefuses : chance.refuses phase (.move source target) with
  | some refusal =>
    rw [hrefuses] at h
    cases h
    rfl
  | none =>
    rw [hrefuses] at h
    change files.attempt (files.move source target) = _ at h
    cases hmove : files.move source target with
    | ok moved =>
      rw [attempt_ok hmove] at h
      cases h
    | error reason =>
      rw [attempt_error hmove] at h
      cases h
      rfl

theorem syncRefused_of_sync (chance : Chance) (h : plan.Begins l fs) {moved : FileSystem}
    (hway : ∀ v, fs.HasDirectory v → moved.lookup v = fs.lookup v) :
    (∀ crash ∈ moved :: chance.trace .commit moved [.syncDirectory plan.base], crash = moved) ∧
      ∀ e, (chance.takeAll .commit moved [.syncDirectory plan.base]).2 = .error e →
        SyncRefused chance plan.base e := by
  obtain ⟨place, hopen⟩ := h.opens
  obtain ⟨hresolve, hdirectory⟩ := openDirectory_ok hopen
  obtain ⟨hpassed, rfl⟩ := resolve_ok hresolve
  have hrun : FileStep.run moved (.syncDirectory plan.base) = (moved, .ok ()) := by
    show (moved, (moved.openDirectory plan.base).map fun _ => ()) = _
    rw [openDirectory_congr (fun v hv => hway v (hpassed v hv)) (hway _ hdirectory), hopen]
    rfl
  rw [Chance.takeAll, Chance.trace, Chance.take]
  cases hrefuses : chance.refuses .commit (.syncDirectory plan.base) with
  | none =>
    dsimp only
    rw [hrun]
    refine ⟨List.forall_mem_cons.mpr ⟨rfl, List.forall_mem_singleton.mpr rfl⟩, ?_⟩
    rintro e ⟨⟩
  | some refusal =>
    refine ⟨List.forall_mem_cons.mpr ⟨rfl, List.forall_mem_singleton.mpr rfl⟩, ?_⟩
    rintro e ⟨⟩
    exact ⟨refusal, hrefuses, rfl⟩

/-- Either the manifest is refused and there are only drafts, or it is in place in the end. Then
there is nothing left to refuse but the sync. -/
theorem commit_cases (h : plan.Begins l fs) (hfilled : plan.Filled fs)
    (hstaged : Extends plan.base.place plan.newNames fs staged) (chance : Chance) :
    ((∃ e, (plan.commit chance staged).2 = .error e) ∧
      ∀ crash ∈ staged :: chance.traceOrUndo .commit staged plan.commitSteps
        (.removeFile plan.temporaryPath) plan.base, plan.Pending fs crash) ∨
    (plan.Committed (plan.commit chance staged).1 ∧
      (∀ e, (plan.commit chance staged).2 = .error e → SyncRefused chance plan.base e) ∧
      ∀ crash ∈ staged :: chance.traceOrUndo .commit staged plan.commitSteps
        (.removeFile plan.temporaryPath) plan.base,
        plan.Pending fs crash ∨ crash = (plan.commit chance staged).1) := by
  have hdrafts := Chance.trace_invariant (extends_draftStep h.fits h.tree chance .commit) hstaged
  have hlast := hdrafts _ (chance.takeAll_mem_trace .commit staged plan.draftSteps)
  have hpending : ∀ crash ∈ staged :: chance.trace .commit staged plan.draftSteps,
      plan.Pending fs crash := fun crash hmem => .staged hfilled (hdrafts crash hmem)
  have hundone : ∀ {files}, Extends plan.base.place plan.newNames fs files →
      plan.Pending fs (chance.take .undo files (.removeFile plan.temporaryPath)).1 :=
    fun hfiles => .staged hfilled (extends_removeTemporary h.fits h.tree hfiles chance .undo)
  -- the steps are cut at the move: before it there are drafts, behind it only the sync
  unfold commit Chance.takeOrUndo Chance.traceOrUndo commitSteps
  rw [Chance.takeAll_append, Chance.trace_append, List.append_assoc, ← List.cons_append]
  generalize hwrite : chance.takeAll .commit staged plan.draftSteps = done at hlast
  obtain ⟨created, e | ⟨⟨⟩⟩⟩ := done
  · exact .inl ⟨⟨e, rfl⟩, List.forall_mem_append.mpr
      ⟨hpending, List.forall_mem_singleton.mpr (hundone hlast)⟩⟩
  · dsimp only
    rw [Chance.takeAll, Chance.trace]
    generalize hmove : chance.take .commit created
      (.move plan.temporaryPath (manifestPath plan.base)) = done
    obtain ⟨moved, e | u⟩ := done
    · obtain rfl := files_of_move_refused hmove
      exact .inl ⟨⟨_, rfl⟩, List.forall_mem_append.mpr ⟨hpending, List.forall_mem_cons.mpr
        ⟨.staged hfilled hlast, List.forall_mem_singleton.mpr (hundone hlast)⟩⟩⟩
    · obtain ⟨hcommitted, hway⟩ := committed_of_move h hfilled hlast
        (lookup_of_draftSteps hwrite) (of_attempt_ok (Chance.of_take_ok hmove))
      obtain ⟨hsame, hrefused⟩ := syncRefused_of_sync chance h hway
      have hend := hsame _ (chance.takeAll_mem_trace .commit moved [.syncDirectory plan.base])
      refine .inr ⟨hend.symm ▸ hcommitted, hrefused, List.forall_mem_append.mpr
        ⟨fun crash hmem => .inl (hpending crash hmem), fun crash hmem => .inr ?_⟩⟩
      exact (hsame crash hmem).trans hend.symm

theorem load_of_clean (h : plan.Begins l fs) {next : FileSystem} (hnext : plan.Committed next)
    (chance : Chance) (digest : DigestFunction) (fingerprint : UInt64) :
    ∀ crash ∈ next :: chance.traceEach .clean next plan.cleanSteps,
      l.load digest crash fingerprint = l.load digest next fingerprint := by
  have hkept : plan.Kept next next := fun _ _ => rfl
  intro crash hmem
  exact hnext.load_eq h (Chance.traceEach_invariant
    (kept_cleanStep h.fits.stale next chance .clean) hkept crash hmem) digest fingerprint

/-- Whatever a plan passes through, a location loads what it loaded before or what it will load in
the end. If the plan fails, the end is as before, unless it fails with the sync behind the move of
the manifest, which is in place then. -/
theorem load_of_trace (h : plan.Begins l fs) (chance : Chance) (digest : DigestFunction)
    (fingerprint : UInt64) :
    (∀ crash ∈ fs :: plan.trace chance fs,
      l.load digest crash fingerprint = l.load digest fs fingerprint ∨
      l.load digest crash fingerprint =
        l.load digest (plan.publish chance fs).files fingerprint) ∧
    ∀ e, (plan.publish chance fs).result = .error e →
      l.load digest (plan.publish chance fs).files fingerprint = l.load digest fs fingerprint ∨
        SyncRefused chance plan.base e ∧
          readManifest (plan.publish chance fs).files plan.base = .ok (some plan.manifest) := by
  have hload : ∀ {crash}, plan.Pending fs crash → _ :=
    fun hcrash => Pending.load_eq hcrash h digest fingerprint
  have hstage := pending_stage h chance
  have hlast : plan.Pending fs (plan.stage chance fs).1 :=
    hstage _ (Chance.takeOrUndo_mem_trace ..)
  have hfilled := @filled_of_stage _ _ _ chance h
  unfold Plan.trace Plan.publish
  rw [← List.cons_append]
  generalize plan.stage chance fs = done at hlast hfilled ⊢
  obtain ⟨staged, e | ⟨⟨⟩⟩⟩ := done
  · rw [List.append_nil]
    exact ⟨fun crash hmem => .inl (hload (hstage crash hmem)), fun _ _ => .inl (hload hlast)⟩
  dsimp only
  -- what is loaded changes with the move of the manifest, and never again
  rcases commit_cases h (hfilled rfl) hlast.extends_newNames chance with
    ⟨⟨e, herror⟩, hcommit⟩ | ⟨hcommitted, herror, hcommit⟩
  · have hend : plan.Pending fs (plan.commit chance staged).1 :=
      hcommit _ (Chance.takeOrUndo_mem_trace ..)
    generalize plan.commit chance staged = done at hend herror ⊢
    obtain ⟨last, result⟩ := done
    cases herror
    rw [List.append_nil]
    exact ⟨List.forall_mem_append.mpr ⟨fun crash hmem => .inl (hload (hstage crash hmem)),
      fun crash hmem => .inl (hload (hcommit crash (List.mem_cons_of_mem _ hmem)))⟩,
      fun _ _ => .inl (hload hend)⟩
  · have hbefore : ∀ crash ∈ _, _ ∨ _ := fun crash hmem =>
      (hcommit crash (List.mem_cons_of_mem staged hmem)).imp hload
        (congrArg fun fs => l.load digest fs fingerprint)
    generalize plan.commit chance staged = done at hcommitted herror hbefore ⊢
    obtain ⟨committed, e | u⟩ := done
    · rw [List.append_nil]
      refine ⟨List.forall_mem_append.mpr
        ⟨fun crash hmem => .inl (hload (hstage crash hmem)), hbefore⟩, ?_⟩
      rintro _ ⟨⟩
      exact .inr ⟨herror e rfl, hcommitted.readManifest_eq h.fits⟩
    · have hclean := load_of_clean h hcommitted chance digest fingerprint
      have hend := hclean _ (chance.takeEach_mem_trace .clean committed plan.cleanSteps)
      refine ⟨?_, nofun⟩
      dsimp only
      rw [hend]
      exact List.forall_mem_append.mpr ⟨fun crash hmem => .inl (hload (hstage crash hmem)),
        List.forall_mem_append.mpr ⟨hbefore,
          fun crash hmem => .inr (hclean crash (List.mem_cons_of_mem _ hmem))⟩⟩

end Plan

/-! ## One publication -/

variable {l : Location} {base : Path} {before after : FileSystem}

theorem isFile_of_readManifest {files : FileSystem} {m : Manifest}
    (h : readManifest files base = .ok (some m)) : files.isFile (manifestPath base) = true := by
  obtain ⟨bytes, hread, -⟩ := readManifest_some.mp h
  obtain ⟨entry, hstat, -⟩ := of_bind_ok hread
  obtain ⟨mode, hfile⟩ := read_ok hread
  exact isFile_iff.mpr ⟨(stat_ok hstat).1, bytes, mode, hfile⟩

/-- Without steps back a location is settled, if its primary directory is not below the alternative
one. -/
theorem Location.settled_of_no_steps_back (files : FileSystem)
    (hprimary : ∀ base ∈ l.primary, ↑".." ∉ base.parts)
    (halternative : ∀ other ∈ l.alternative, ↑".." ∉ other.parts)
    (hapart : ∀ base ∈ l.primary, ∀ other ∈ l.alternative, ¬ other.place <+: base.place) :
    l.Settled files where
  primary_left {base} hp v hv := by
    rw [Path.left, Path.leaves_eq_nil _ (hprimary base hp)] at hv
    exact absurd hv List.not_mem_nil
  primary_kept {base} hp v hv := by
    rw [Path.left, Path.leaves_eq_nil _ (hprimary base hp)] at hv
    exact absurd hv List.not_mem_nil
  alternative_left {_ other} _ ho v hv := by
    rw [Path.left, Path.leaves_eq_nil _ (halternative other ho)] at hv
    exact absurd hv List.not_mem_nil
  alternative_apart {base other} hp ho m _ s _ hbelow := by
    apply hapart base hp other ho
    rw [Extends.place_section] at hbelow
    exact (List.prefix_append _ _).trans hbelow

/-- Directories above the primary one leave a location settled. -/
theorem Extends.settled (h : Extends base.place [] before after) (hbase : base ∈ l.primary)
    (tree : before.IsTree) (settled : l.Settled before) : l.Settled after where
  primary_left hp v hv := h.lookup_ne_none (settled.primary_left hp v hv)
  primary_kept := settled.primary_kept
  alternative_left hp ho v hv hnear := h.lookup_ne_none (settled.alternative_left hp ho v hv hnear)
  alternative_apart {primary other} hp ho m hm := by
    apply settled.alternative_apart hp ho m
    have hfile := isFile_of_readManifest hm
    rw [h.isFile_manifest tree (fun _ hn => absurd hn List.not_mem_nil)
      (h.lookup_left (settled.alternative_left hbase ho))] at hfile
    rw [← h.readManifest_eq hfile]
    exact hm

/-- The highest generation that a publication finds, if it comes to that. -/
def Location.found? (l : Location) (files : FileSystem) : Option UInt64 :=
  match l.primary with
  | none => none
  | some base =>
    let made := (files.makeDirectories base).1
    match made.readDirectory base with
    | .ok names => some (latest made base names)
    | .error _ => none

/-- The generations that a publication finds leave room for one more. -/
def Location.HasRoom (l : Location) (files : FileSystem) : Prop :=
  ∀ generation ∈ l.found? files, generation.toNat + 1 < UInt64.size

instance (l : Location) (files : FileSystem) : Decidable (l.HasRoom files) :=
  Option.decidableForallMem (l.found? files)

theorem Location.mem_found? {files : FileSystem} {names : List FileName} (hbase : base ∈ l.primary)
    (hread : (files.makeDirectories base).1.readDirectory base = .ok names) :
    latest (files.makeDirectories base).1 base names ∈ l.found? files := by
  have hprimary : l.primary = some base := hbase
  unfold Location.found?
  rw [hprimary]
  dsimp only
  rw [hread]
  rfl

theorem Location.HasRoom.latest_lt {files : FileSystem} {names : List FileName}
    (h : l.HasRoom files) (hbase : base ∈ l.primary)
    (hread : (files.makeDirectories base).1.readDirectory base = .ok names) :
    (latest (files.makeDirectories base).1 base names).toNat + 1 < UInt64.size :=
  h _ (mem_found? hbase hread)

theorem Plan.begins_make {digest : DigestFunction} {chance : Chance} {fs : FileSystem}
    {names : List FileName} {image : Image} (hbase : base ∈ l.primary) (settled : l.Settled fs)
    (tree : fs.IsTree) (hread : fs.readDirectory base = .ok names)
    (hroom : (latest fs base names).toNat + 1 < UInt64.size)
    (hsections : image.sections.map Prod.fst = Section.data) :
    (Plan.make digest chance fs base names image).Begins l fs where
  primary := hbase
  opens := by
    obtain ⟨place, hopen, -⟩ := of_bind_ok hread
    exact ⟨place, hopen⟩
  settled := settled
  tree := tree
  fits := fits_make hread hroom hsections
  next _ hm := UInt64.ne_of_lt (lt_next hroom (live_le_latest hm))

theorem Location.mem_primary_of_target? (h : l.target? = some base) : base ∈ l.primary := by
  unfold target? at h
  split_ifs at h
  exact h

theorem Location.load_of_above (hbase : base ∈ l.primary) (settled : l.Settled before)
    (tree : before.IsTree) (h : Extends base.place [] before after) (digest : DigestFunction)
    (fingerprint : UInt64) : l.load digest after fingerprint = l.load digest before fingerprint :=
  h.load_eq hbase settled tree (fun _ hn => absurd hn List.not_mem_nil)
    (fun _ _ _ _ _ => List.not_mem_nil) digest fingerprint

theorem Location.load_of_publish (hbase : base ∈ l.primary) (settled : l.Settled before)
    (tree : before.IsTree) (hroom : l.HasRoom before) (digest : DigestFunction) (chance : Chance)
    (image : Image) (hsections : image.sections.map Prod.fst = Section.data)
    (fingerprint : UInt64) :
    (∀ crash ∈ before :: publishTrace digest chance before base image,
      l.load digest crash fingerprint = l.load digest before fingerprint ∨
      l.load digest crash fingerprint =
        l.load digest (publish digest chance before base image).files fingerprint) ∧
    ∀ e, (publish digest chance before base image).result = .error e →
      l.load digest (publish digest chance before base image).files fingerprint =
        l.load digest before fingerprint ∨
      SyncRefused chance base e ∧ ∃ generation,
        readManifest (publish digest chance before base image).files base =
          .ok (some (.ofImage digest generation image)) := by
  have hmade : ∀ crash ∈ before :: before.lineageTrace base.lineage,
      l.load digest crash fingerprint = l.load digest before fingerprint := fun crash hmem =>
    load_of_above hbase settled tree
      (extends_lineageTrace tree (settled.primary_left hbase) crash hmem).1 digest fingerprint
  have hlast := extends_makeDirectories tree (settled.primary_left hbase)
  have hload := load_of_above hbase settled tree hlast.1 digest fingerprint
  have hroom := fun names => @HasRoom.latest_lt _ _ _ names hroom hbase
  unfold publishTrace publish
  generalize before.makeDirectories base = done at hlast hload hroom ⊢
  obtain ⟨fs, e | ⟨⟨⟩⟩⟩ := done
  · rw [List.append_nil]
    exact ⟨fun crash hmem => .inl (hmade crash hmem), fun _ _ => .inl hload⟩
  · dsimp only at hroom hlast hload ⊢
    cases hread : fs.readDirectory base with
    | error e =>
      dsimp only
      rw [List.append_nil]
      exact ⟨fun crash hmem => .inl (hmade crash hmem), fun _ _ => .inl hload⟩
    | ok names =>
      have hbegins : (Plan.make digest chance fs base names image).Begins l fs :=
        Plan.begins_make hbase (hlast.1.settled hbase tree settled) hlast.2 hread
          (hroom names hread) hsections
      obtain ⟨htrace, hrefused⟩ := Plan.load_of_trace hbegins chance digest fingerprint
      rw [hload] at htrace hrefused
      rw [← List.cons_append]
      refine ⟨List.forall_mem_append.mpr ⟨fun crash hmem => .inl (hmade crash hmem),
        fun crash hmem => htrace crash (List.mem_cons_of_mem fs hmem)⟩, fun e he => ?_⟩
      exact (hrefused e he).imp_right fun ⟨hsync, hmanifest⟩ => ⟨hsync, _, hmanifest⟩

/-- Storing an image is all or nothing. Wherever it stops, what is loaded then is what was loaded
before or what is loaded after the whole call, and if the call is refused, it is what was loaded
before, unless it is refused for a `late` reason. -/
structure Location.AllOrNothing (digest : DigestFunction) (chance : Chance) (l : Location)
    (files : FileSystem) (image : Image) (late : Error → Prop) : Prop where
  stopped (fingerprint : UInt64) :
    ∀ crash ∈ files :: l.storeTrace digest chance files image,
      l.loadStore digest crash fingerprint = l.loadStore digest files fingerprint ∨
      l.loadStore digest crash fingerprint =
        l.loadStore digest (l.store digest chance files image).1 fingerprint
  refused (fingerprint : UInt64) :
    ∀ e, (l.store digest chance files image).2.2 = .error e →
      l.loadStore digest (l.store digest chance files image).1 fingerprint =
        l.loadStore digest files fingerprint ∨ late e

/-- Storing is refused with the sync behind the move of the manifest, so the new manifest is in
place. -/
def Location.IsLate (digest : DigestFunction) (chance : Chance) (l : Location)
    (files : FileSystem) (image : Image) (e : Error) : Prop :=
  ∃ base ∈ l.primary, SyncRefused chance base e ∧ ∃ generation,
    readManifest (l.store digest chance files image).1 base =
      .ok (some (.ofImage digest generation image))

theorem Location.allOrNothing_of_settled (digest : DigestFunction) (chance : Chance)
    {files : FileSystem} (tree : files.IsTree) (settled : l.Settled files)
    (hroom : l.HasRoom files) (parts : Parts) (stamp : UInt64) :
    l.AllOrNothing digest chance files (Image.encode parts stamp)
      (l.IsLate digest chance files (Image.encode parts stamp)) := by
  have hcongr : ∀ {files files' : FileSystem} {fingerprint : UInt64},
      l.load digest files fingerprint = l.load digest files' fingerprint →
        l.loadStore digest files fingerprint = l.loadStore digest files' fingerprint := by
    intro files files' fingerprint h
    unfold Location.loadStore
    rw [h]
  cases htarget : l.target? with
  | none =>
    constructor
    · intro fingerprint crash hmem
      unfold Location.storeTrace at hmem
      rw [htarget] at hmem
      rw [List.mem_singleton.mp hmem]
      exact .inl rfl
    · intro fingerprint e he
      unfold Location.store
      rw [htarget]
      exact .inl rfl
  | some base =>
    have hstore : l.store digest chance files (Image.encode parts stamp) =
        let p := publish digest chance files base (Image.encode parts stamp)
        (p.files, p.log base, p.result) := by
      unfold Location.store
      rw [htarget]
    have htrace : l.storeTrace digest chance files (Image.encode parts stamp) =
        publishTrace digest chance files base (Image.encode parts stamp) := by
      unfold Location.storeTrace
      rw [htarget]
    have hbase := mem_primary_of_target? htarget
    have hpublish := load_of_publish hbase settled tree hroom digest chance
      (Image.encode parts stamp) rfl
    constructor
    · intro fingerprint crash hmem
      rw [hstore]
      rw [htrace] at hmem
      exact ((hpublish fingerprint).1 crash hmem).imp hcongr hcongr
    · intro fingerprint e he
      unfold IsLate
      rw [hstore] at he ⊢
      rcases (hpublish fingerprint).2 e he with hsame | ⟨hsync, hmanifest⟩
      · exact .inl (hcongr hsame)
      · exact .inr ⟨base, hbase, hsync, hmanifest⟩

/-! ## A small cache directory -/

def plainDigest : DigestFunction := fun _ => ⟨List.replicate 32 0, List.length_replicate⟩

def plainParts : Parts := { nextId := 0, objects := [], contributions := [], orphans := [] }

/-- A directory `p` with an empty generation in it. -/
def plainEntries (mode : Mode) : List (Place × FileEntry) :=
  [([], .directory .ofDirectory), (["p"], .directory mode),
    (["p", "gen-1"], .directory .ofDirectory)]

def plainFiles : FileSystem := ⟨plainEntries .ofDirectory⟩

/-- The same directory with a manifest that names the generation. -/
def liveFiles (mode : Mode) : FileSystem :=
  ⟨plainEntries mode ++ [((["p", "registry.manifest"] : Place),
    .file (Manifest.encode { generation := 1, fingerprint := 7, sections := [] }) .ofFile)]⟩

/-- The alternative path steps back from the primary directory, which is there. -/
def steadyLocation : Location where
  primary := some ⟨["p"]⟩
  alternative := some ⟨["p", "..", "q"]⟩
  readOnly := false

theorem settled_steadyLocation : steadyLocation.Settled plainFiles where
  primary_left := by
    rintro base ⟨⟩ v hv
    exact absurd hv List.not_mem_nil
  primary_kept := by
    rintro base ⟨⟩ v hv
    exact absurd hv List.not_mem_nil
  alternative_left := by
    rintro base other - ⟨⟩ v hv -
    rw [List.mem_singleton.mp hv]
    decide
  alternative_apart := by
    rintro base other - ⟨⟩ m hm
    cases hm

theorem Location.allOrNothing_steadyLocation : plainFiles.IsTree ∧
    steadyLocation.Settled plainFiles ∧ steadyLocation.HasRoom plainFiles ∧
      steadyLocation.AllOrNothing plainDigest .plain plainFiles (Image.encode plainParts 9)
        (steadyLocation.IsLate plainDigest .plain plainFiles (Image.encode plainParts 9)) :=
  have tree : plainFiles.IsTree := by decide
  have hroom : steadyLocation.HasRoom plainFiles := by decide +kernel
  ⟨tree, settled_steadyLocation, hroom,
    Location.allOrNothing_of_settled plainDigest .plain tree settled_steadyLocation hroom plainParts
      9⟩

/-! ## Locations that are not settled -/

def Location.loadError? (digest : DigestFunction) (l : Location) (files : FileSystem)
    (fingerprint : UInt64) : Option Error :=
  match (l.loadStore digest files fingerprint).2 with
  | .error e => some e
  | .ok _ => none

variable {digest : DigestFunction} {chance : Chance} {files : FileSystem} {image : Image}

theorem Location.not_allOrNothing_of_crash {late : Error → Prop} (fingerprint : UInt64)
    (h : (l.storeTrace digest chance files image).any fun crash =>
      l.loadError? digest crash fingerprint ≠ l.loadError? digest files fingerprint &&
      l.loadError? digest crash fingerprint ≠
        l.loadError? digest (l.store digest chance files image).1 fingerprint) :
    ¬l.AllOrNothing digest chance files image late := by
  intro hall
  obtain ⟨crash, hmem, hne⟩ := List.any_eq_true.mp h
  simp only [Bool.and_eq_true, decide_eq_true_eq] at hne
  rcases hall.stopped fingerprint crash (List.mem_cons_of_mem _ hmem) with heq | heq
  · apply hne.1
    unfold Location.loadError?
    rw [heq]
  · apply hne.2
    unfold Location.loadError?
    rw [heq]

theorem Location.not_allOrNothing_of_refused (fingerprint : UInt64)
    (hstore : (l.store digest chance files image).2.2.toBool = false)
    (hne : l.loadError? digest (l.store digest chance files image).1 fingerprint ≠
      l.loadError? digest files fingerprint) :
    ¬l.AllOrNothing digest chance files image fun _ => False := by
  intro hall
  cases hresult : (l.store digest chance files image).2.2 with
  | ok generation =>
    rw [hresult] at hstore
    cases hstore
  | error e =>
    apply hne
    unfold Location.loadError?
    rw [(hall.refused fingerprint e hresult).resolve_right id]

/-- The primary directory is refused, but only after one is made that the alternative path steps
back from. -/
def steppingRefused : Location where
  primary := some ⟨["x", "..", "p", "registry.manifest", "q"]⟩
  alternative := some ⟨["x", "..", "p"]⟩
  readOnly := false

/-- The alternative path steps back from the primary directory. -/
def steppingAlternative : Location where
  primary := some ⟨["x"]⟩
  alternative := some ⟨["x", "..", "p"]⟩
  readOnly := false

/-- The primary directory is made where the alternative one lacks a section. -/
def underSection : Location where
  primary := some ⟨["p", "gen-1", "table.bin"]⟩
  alternative := some ⟨["p"]⟩
  readOnly := false

/-- The primary path steps back from a directory that is made for it. -/
def steppingPrimary : Location where
  primary := some ⟨["p", "x", ".."]⟩
  alternative := none
  readOnly := false

/-- The primary path steps back from a generation that is removed. -/
def throughGeneration : Location where
  primary := some ⟨["p", "gen-1", ".."]⟩
  alternative := none
  readOnly := false

/-- In a tree with room for one more generation storing is not all or nothing. -/
def Location.Tears (l : Location) (chance : Chance) (files : FileSystem) : Prop :=
  files.IsTree ∧ l.HasRoom files ∧
    ¬l.AllOrNothing plainDigest chance files (Image.encode plainParts 9) fun _ => False

/-- The device refuses to sync the directory once the manifest is replaced. -/
def lateChance : Chance :=
  { Chance.plain with
    refuses := fun phase step =>
      if phase = .commit ∧ step = .syncDirectory ⟨["p"]⟩ then some ⟨.inputOutput, 0⟩ else none }

/-- None of the conditions on a location can be left out, and even where all hold the last sync may
be refused with the new manifest in place. -/
theorem Location.not_allOrNothing_unsettled :
    steppingRefused.Tears .plain (liveFiles .ofDirectory) ∧
      steppingAlternative.Tears .plain (liveFiles .ofDirectory) ∧
      underSection.Tears .plain (liveFiles .ofDirectory) ∧
      steppingPrimary.Tears .plain (liveFiles ⟨0o300⟩) ∧
      throughGeneration.Tears .plain plainFiles ∧
      steadyLocation.Settled plainFiles ∧ steadyLocation.Tears lateChance plainFiles := by
  refine ⟨⟨by decide, by decide +kernel, ?_⟩, ⟨by decide, by decide +kernel, ?_⟩,
    ⟨by decide, by decide +kernel, ?_⟩, ⟨by decide, by decide +kernel, ?_⟩,
    ⟨by decide, by decide +kernel, ?_⟩, settled_steadyLocation, ⟨by decide, by decide +kernel, ?_⟩⟩
  · exact not_allOrNothing_of_refused 8 (by decide +kernel) (by decide +kernel)
  · exact not_allOrNothing_of_crash 8 (by decide +kernel)
  · exact not_allOrNothing_of_crash 7 (by decide +kernel)
  · exact not_allOrNothing_of_refused 8 (by decide +kernel) (by decide +kernel)
  · exact not_allOrNothing_of_crash 8 (by decide +kernel)
  · exact not_allOrNothing_of_refused 9 (by decide +kernel) (by decide +kernel)

end PluginRegistry.Cache
