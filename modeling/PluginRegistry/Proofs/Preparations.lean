import PluginRegistry.Proofs.Crashes

/-!
# Making the directory of a cache

A stop makes the primary directory even when there is nothing to write, and the directories above
it. As long as no path of the location steps back from one of these (`Location.Steady`), the
location gives the same parts as before, or none as before (`Location.load_of_prepare`); and what
a publication finds there later it finds at once (`Location.found?_of_prepare`).
-/

namespace PluginRegistry.Cache

open FileSystem Generation

/-! ## Whether something is read at all -/

theorem toOption_bind {α β : Type} (x : Except Error α) (f : α → Except Error β) :
    (x >>= f).toOption = x.toOption.bind fun a => (f a).toOption := by
  cases x <;> rfl

theorem toOption_mapM_congr {α β : Type} {f g : α → Except Error β} {items : List α}
    (h : ∀ a ∈ items, (f a).toOption = (g a).toOption) :
    (items.mapM f).toOption = (items.mapM g).toOption := by
  induction items with
  | nil => rfl
  | cons a items ih =>
    have hrest := ih fun b hb => h b (List.mem_cons_of_mem a hb)
    rw [List.mapM_cons, List.mapM_cons, toOption_bind, toOption_bind, h a List.mem_cons_self]
    congr 1
    funext b
    rw [toOption_bind, toOption_bind, hrest]

theorem toOption_loadParts_congr {digest : DigestFunction} {files files' : FileSystem}
    {base : Path} (hmanifest : readManifest files' base = readManifest files base)
    (hsections : ∀ m, readManifest files base = .ok (some m) → ∀ s ∈ Section.data,
      (files'.read ((directory base m.generation).child s.entry)).toOption =
        (files.read ((directory base m.generation).child s.entry)).toOption)
    (fingerprint : UInt64) : (loadParts digest files' base fingerprint).toOption =
      (loadParts digest files base fingerprint).toOption := by
  unfold loadParts
  rw [hmanifest]
  cases hm : readManifest files base with
  | error e => rfl
  | ok found =>
    cases found with
    | none => rfl
    | some m =>
      have hgeneration : (readGeneration digest files' base m).toOption =
          (readGeneration digest files base m).toOption := by
        unfold readGeneration
        rw [toOption_bind, toOption_bind]
        congr 1
        apply toOption_mapM_congr
        intro s hs
        have hsame := hsections m hm s hs
        dsimp only
        generalize files'.read _ = read at hsame ⊢
        generalize files.read _ = read' at hsame ⊢
        cases read <;> cases read' <;> cases hsame <;> rfl
      show (if _ then _ else _ : Except Error Parts).toOption =
        (if _ then _ else _ : Except Error Parts).toOption
      split_ifs
      · rfl
      · show (readGeneration digest files' base m >>= _).toOption =
          (readGeneration digest files base m >>= _).toOption
        rw [toOption_bind, toOption_bind, hgeneration]

theorem toOption_read_eq_none {fs : FileSystem} {p : Path}
    (h : ∀ content mode, fs.lookup p.place ≠ some (.file content mode)) :
    (fs.read p).toOption = none := by
  cases hread : fs.read p with
  | error e => rfl
  | ok content =>
    obtain ⟨mode, hfile⟩ := read_ok hread
    exact absurd hfile (h content mode)

/-! ## Directories above a place -/

variable {place : Place} {before after : FileSystem}

namespace Extends

theorem lookup_above (h : Extends place [] before after) (q : Place) :
    after.lookup q = before.lookup q ∨
      before.lookup q = none ∧ q <+: place ∧ after.lookup q = some (.directory .ofDirectory) := by
  rcases h.lookup_cases q with hsame | ⟨hnone, entry, hentry, hdraft⟩
  · exact .inl hsame
  · refine .inr ⟨hnone, ?_⟩
    cases hdraft with
    | above habove => exact ⟨habove, hentry⟩
    | named _ hname => exact absurd hname List.not_mem_nil
    | inside _ hname => exact absurd hname List.not_mem_nil

theorem lookup_left_of_above (h : Extends place [] before after) {p : Path}
    (hleft : ∀ v ∈ p.left, v <+: place → before.lookup v ≠ none) :
    ∀ v ∈ p.left, before.lookup v = none → after.lookup v = none := by
  intro v hv hnone
  rcases h.lookup_above v with hsame | ⟨-, habove, -⟩
  · rw [hsame, hnone]
  · exact absurd hnone (hleft v hv habove)

/-- A section that a directory has come up in place of was missing and cannot be read now. -/
theorem toOption_read_section (h : Extends place [] before after) (tree : before.IsTree)
    {base : Path} (hfile : before.isFile (manifestPath base) = true) (generation : UInt64)
    (s : Section) :
    (after.read ((directory base generation).child s.entry)).toOption =
      (before.read ((directory base generation).child s.entry)).toOption := by
  rcases h.lookup_above (base.place ++ [name generation, s.entry]) with
    hsame | ⟨hnone, -, hmade⟩
  · rw [h.read_section_of_lookup tree hfile (fun _ => List.not_mem_nil) hsame]
  · rw [← place_section] at hnone hmade
    rw [toOption_read_eq_none, toOption_read_eq_none]
    · simp [hnone]
    · simp [hmade]

end Extends

theorem stat_of_isDirectory {fs : FileSystem} {p : Path} (h : fs.isDirectory p = true) :
    ∃ mode, fs.stat p = .ok (.directory mode) := by
  unfold isDirectory at h
  cases hstat : fs.stat p with
  | error e =>
    rw [hstat] at h
    cases h
  | ok entry =>
    rw [hstat] at h
    cases entry with
    | file => cases h
    | directory mode => exact ⟨mode, rfl⟩

theorem hasDirectory_of_isDirectory {fs : FileSystem} {p : Path} (h : fs.isDirectory p = true) :
    fs.HasDirectory p.place := by
  obtain ⟨mode, hstat⟩ := stat_of_isDirectory h
  exact ⟨mode, (stat_ok hstat).2⟩

/-! ## Preparing a location -/

/-- The primary path of a location steps back only from directories that are there, and the
alternative one not from a directory that is missing at the primary one or above it. -/
structure Location.Steady (l : Location) (files : FileSystem) : Prop where
  primary {base : Path} : base ∈ l.primary → ∀ v ∈ base.left, files.lookup v ≠ none
  alternative {base other : Path} : base ∈ l.primary → other ∈ l.alternative →
    ∀ v ∈ other.left, v <+: base.place → files.lookup v ≠ none

namespace Location

variable {l : Location} {base : Path} {files made : FileSystem}

theorem steady_of_isDirectory (tree : files.IsTree)
    (h : ∀ base ∈ l.primary, files.isDirectory base = true) : l.Steady files where
  primary {base} hbase v hv := by
    obtain ⟨mode, hstat⟩ := stat_of_isDirectory (h base hbase)
    obtain ⟨_, hentry⟩ := (resolve_ok (stat_ok hstat).1).1 v (Path.passes_of_leaves hv)
    simp [hentry]
  alternative {base _} hbase _ v _ habove := by
    obtain ⟨mode, hmode⟩ := hasDirectory_of_isDirectory (h base hbase)
    by_cases heq : v = base.place
    · simp [heq, hmode]
    · obtain ⟨_, hentry⟩ := tree.hasDirectory hmode habove heq
      simp [hentry]

theorem toOption_load_of_above (steady : l.Steady before) (hbase : base ∈ l.primary)
    (tree : before.IsTree) (h : Extends base.place [] before after) (digest : DigestFunction)
    (fingerprint : UInt64) : (l.load digest after fingerprint).toOption =
      (l.load digest before fingerprint).toOption := by
  have hprobe : l.probe after = l.probe before := by
    unfold probe
    apply List.find?_congr
    intro other hother
    apply h.isFile_manifest tree fun _ hn => absurd hn List.not_mem_nil
    apply h.lookup_left_of_above
    rcases List.mem_append.mp hother with hother | hother
    · exact fun v hv _ => steady.primary (Option.mem_toList.mp hother) v hv
    · exact steady.alternative hbase (Option.mem_toList.mp hother)
  unfold load
  rw [hprobe]
  cases hfound : l.probe before with
  | none => rfl
  | some other =>
    have hfile := List.find?_some hfound
    have hparts : (loadParts digest after other fingerprint).toOption =
        (loadParts digest before other fingerprint).toOption :=
      toOption_loadParts_congr (h.readManifest_eq hfile)
        (fun m _ s _ => h.toOption_read_section tree hfile m.generation s) fingerprint
    dsimp only
    generalize loadParts digest after other fingerprint = parts at hparts ⊢
    generalize loadParts digest before other fingerprint = parts' at hparts ⊢
    cases parts <;> cases parts' <;> cases hparts <;> rfl

theorem prepare_files (l : Location) (files : FileSystem) :
    (l.prepare files).2 = (l.target?.elim files fun base => (files.makeDirectories base).1) := by
  unfold prepare
  cases l.target? with
  | none => rfl
  | some base =>
    dsimp only [Option.elim]
    rcases files.makeDirectories base with ⟨made, e | u⟩
    · rfl
    · dsimp only
      cases made.stat base <;> rfl

theorem load_of_prepare (steady : l.Steady files) (tree : files.IsTree) (digest : DigestFunction)
    (fingerprint : UInt64) : (l.load digest (l.prepare files).2 fingerprint).toOption =
      (l.load digest files fingerprint).toOption := by
  rw [prepare_files]
  cases htarget : l.target? with
  | none => rfl
  | some base =>
    have hbase := mem_primary_of_target? htarget
    exact toOption_load_of_above steady hbase tree
      (extends_makeDirectories tree (steady.primary hbase)).1 digest fingerprint

/-! ## Preparing once more -/

theorem hasDirectory_of_ensureDirectory {fs : FileSystem} {p : Path}
    (h : fs.ensureDirectory p = (made, .ok ())) : made.HasDirectory p.place := by
  unfold ensureDirectory at h
  cases hmake : fs.makeDirectory p with
  | error e =>
    rw [hmake] at h
    simp only [attempt, Prod.mk.injEq] at h
    obtain ⟨rfl, hthere⟩ := h
    split_ifs at hthere with hdirectory
    exact hasDirectory_of_isDirectory hdirectory
  | ok next =>
    rw [hmake] at h
    cases h
    obtain ⟨-, -, rfl⟩ := makeDirectory_ok hmake
    exact ⟨_, by rw [lookup_put, if_pos rfl]⟩

theorem hasDirectory_of_makeDirectories (h : files.makeDirectories base = (made, .ok ())) :
    made.HasDirectory base.place := by
  unfold makeDirectories Path.lineage at h
  rw [makeLineage] at h
  rcases hfirst : files.ensureDirectory base with ⟨first, ⟨⟨⟩⟩ | ⟨u⟩⟩ <;> rw [hfirst] at h
  case error.notFound =>
    dsimp only at h
    rcases habove : first.makeLineage (Path.above base.parts.reverse) with ⟨next, e | u⟩ <;>
      rw [habove] at h
    · cases h
    · exact hasDirectory_of_ensureDirectory h
  case ok =>
    cases h
    exact hasDirectory_of_ensureDirectory hfirst
  all_goals cases h

theorem makeDirectories_again (h : files.makeDirectories base = (made, .ok ())) {entry : FileEntry}
    (hstat : made.stat base = .ok entry) : made.makeDirectories base = (made, .ok ()) := by
  obtain ⟨mode, hmode⟩ := hasDirectory_of_makeDirectories h
  have hentry : entry = .directory mode := by
    have hlookup := (stat_ok hstat).2
    rw [hmode] at hlookup
    exact (Option.some.inj hlookup).symm
  have hthere : made.isDirectory base = true := by
    unfold isDirectory
    rw [hstat, hentry]
  have hensure : made.ensureDirectory base = (made, .ok ()) := by
    unfold ensureDirectory
    cases hmake : made.makeDirectory base with
    | error e => simp [attempt, hthere]
    | ok next =>
      rw [(makeDirectory_ok hmake).2.1] at hmode
      cases hmode
  unfold makeDirectories Path.lineage
  rw [makeLineage, hensure]

theorem found?_of_prepare (h : (l.prepare files).1 = true) :
    l.found? (l.prepare files).2 = l.found? files := by
  unfold prepare at h ⊢
  cases htarget : l.target? with
  | none => rfl
  | some base =>
    rw [htarget] at h
    dsimp only at h ⊢
    have hbase : l.primary = some base := mem_primary_of_target? htarget
    rcases hmake : files.makeDirectories base with ⟨made, e | ⟨⟨⟩⟩⟩ <;> rw [hmake] at h
    · cases h
    dsimp only at h ⊢
    cases hstat : made.stat base with
    | error e =>
      rw [hstat] at h
      cases h
    | ok entry =>
      unfold found?
      rw [hbase]
      dsimp only
      rw [makeDirectories_again hmake hstat, hmake]

end Location

end PluginRegistry.Cache
