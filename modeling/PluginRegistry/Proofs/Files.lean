import PluginRegistry.Proofs.Paths
import PluginRegistry.Proofs.Results

/-!
# What file operations depend on and what they change

Following a path depends on the places it passes, reading on these and the place it names
(`resolve_congr`, `read_congr`). An operation on one entry that is not refused changes the file
system at the places its paths name: `makeDirectory_ok`, `writeFile_ok`, `removeFile_ok` and
`move_ok` say how.
-/

namespace PluginRegistry.FileSystem

variable {fs fs' : FileSystem}

/-- A directory stands at a place. -/
def HasDirectory (fs : FileSystem) (place : Place) : Prop :=
  ∃ mode, fs.lookup place = some (.directory mode)

theorem attempt_ok {result : Except FileError FileSystem} (h : result = .ok fs') :
    fs.attempt result = (fs', .ok ()) := by
  rw [h]
  rfl

theorem attempt_error {result : Except FileError FileSystem} {e : FileError}
    (h : result = .error e) : fs.attempt result = (fs, .error e) := by
  rw [h]
  rfl

theorem of_attempt_ok {result : Except FileError FileSystem} {u : Unit}
    (h : fs.attempt result = (fs', .ok u)) : result = .ok fs' := by
  cases result with
  | error e => cases h
  | ok next =>
    cases h
    rfl

/-! ## Following a path -/

theorem follow_ok {place next : Place} {part : FileName} (h : fs.follow place part = .ok next) :
    fs.HasDirectory place ∧ next = Path.step place part := by
  unfold follow at h
  unfold Path.step
  cases hplace : fs.lookup place with
  | none => rw [hplace] at h; cases h
  | some entry =>
    rw [hplace] at h
    cases entry with
    | file => cases h
    | directory mode =>
      refine ⟨⟨mode, hplace⟩, ?_⟩
      dsimp only at h
      split_ifs at h ⊢ <;> cases h <;> rfl

theorem follow_congr {place : Place} (h : fs'.lookup place = fs.lookup place) (part : FileName) :
    fs'.follow place part = fs.follow place part := by
  unfold follow
  rw [h]

theorem follow_none {place : Place} (h : fs.lookup place = none) (part : FileName) :
    fs.follow place part = .error .notFound := by
  unfold follow
  rw [h]

theorem follow_name {place : Place} {mode : Mode} (h : fs.lookup place = some (.directory mode))
    (hmode : mode.isSearchable = true) {name : FileName} (hname : Path.IsName name)
    (hsize : name.size ≤ 255) : fs.follow place name = .ok (place ++ [name]) := by
  unfold follow
  rw [h]
  dsimp only
  rw [if_neg hname.1, if_neg (by simp [hmode]), if_neg hname.2.1, if_neg hname.2.2, if_pos hsize]

theorem foldlM_follow_ok {place last : Place} {parts : List FileName}
    (h : parts.foldlM fs.follow place = .ok last) :
    (∀ v ∈ Path.passes place parts, fs.HasDirectory v) ∧ last = Path.walk place parts := by
  induction parts generalizing place with
  | nil =>
    cases h
    exact ⟨fun v hv => by simp [Path.passes] at hv, rfl⟩
  | cons part parts ih =>
    rw [List.foldlM_cons] at h
    cases hnext : fs.follow place part with
    | error e => rw [hnext] at h; cases h
    | ok next =>
      rw [hnext] at h
      obtain ⟨hdirectory, rfl⟩ := follow_ok hnext
      obtain ⟨hrest, hlast⟩ := ih h
      refine ⟨fun v hv => ?_, hlast⟩
      rcases List.mem_cons.mp hv with rfl | hv
      · exact hdirectory
      · exact hrest v hv

theorem foldlM_follow_congr {place : Place} {parts : List FileName}
    (h : ∀ v ∈ Path.passes place parts, fs'.lookup v = fs.lookup v) :
    parts.foldlM fs'.follow place = parts.foldlM fs.follow place := by
  induction parts generalizing place with
  | nil => rfl
  | cons part parts ih =>
    rw [List.foldlM_cons, List.foldlM_cons, follow_congr (h place List.mem_cons_self)]
    cases hnext : fs.follow place part with
    | error e => rfl
    | ok next =>
      obtain ⟨-, rfl⟩ := follow_ok hnext
      exact ih fun v hv => h v (List.mem_cons_of_mem _ hv)

theorem checkPath_iff {p : Path} : checkPath p = .ok () ↔
    (∀ part ∈ p.parts, 0 ∉ part.bytes) ∧ p.size < 4096 := by
  unfold checkPath
  split_ifs with hzero hsize
  · simp only [List.any_eq_true, List.contains_iff_mem] at hzero
    obtain ⟨part, hpart, hmem⟩ := hzero
    simp only [false_iff, not_and]
    exact fun h => absurd hmem (h part hpart)
  · simp only [List.any_eq_true, List.contains_iff_mem, not_exists, not_and] at hzero
    simp only [true_iff]
    exact ⟨hzero, hsize⟩
  · simp only [false_iff, not_and]
    exact fun _ => hsize

theorem checkPath_entry {p : Path} {name : FileName} (h : checkPath p = .ok ())
    (hzero : 0 ∉ name.bytes)
    (hsize : p.size + 1 + name.size < 4096) :
    checkPath (p.child name) = .ok () := by
  obtain ⟨n, hle, hn⟩ := Path.size_child p
  refine checkPath_iff.mpr ⟨fun part hpart => ?_, by rw [hn]; omega⟩
  rcases List.mem_append.mp hpart with hdirectory | hname
  · refine (checkPath_iff.mp h).1 part ?_
    rcases p.directoryParts_cases with hparts | hparts
    · exact hparts ▸ hdirectory
    · exact hparts ▸ List.mem_append_left _ hdirectory
  · rw [List.mem_singleton.mp hname]
    exact hzero

theorem checkPath_child {p : Path} {a b name : FileName} (ha : Path.IsName a)
    (h : checkPath ((p.child a).child b) = .ok ()) (hzero : 0 ∉ name.bytes)
    (hsize : name.size ≤ a.size + 1 + b.size) :
    checkPath (p.child name) = .ok () := by
  obtain ⟨hparts, hshort⟩ := checkPath_iff.mp h
  obtain ⟨n, -, hn⟩ := Path.size_child p
  rw [Path.size_child_child p ha, hn] at hshort
  apply checkPath_iff.mpr
  constructor
  · intro part hpart
    rcases List.mem_append.mp hpart with hpart | hpart
    · apply hparts
      show part ∈ (p.child a).directoryParts ++ [b]
      rw [Path.directoryParts_child p ha]
      exact List.mem_append_left _ (List.mem_append_left _ hpart)
    · rw [List.mem_singleton.mp hpart]
      exact hzero
  · rw [hn]
    omega

theorem resolve_eq (fs : FileSystem) (p : Path) : fs.resolve p =
    (checkPath p).bind fun _ =>
      if p.parts = [("" : FileName)] then .error .notFound else p.parts.foldlM fs.follow [] := by
  unfold resolve
  cases checkPath p with
  | error e => rfl
  | ok u => by_cases h : p.parts = [("" : FileName)] <;> simp [h, Except.bind] <;> rfl

theorem checkPath_of_resolve {p : Path} {place : Place} (h : fs.resolve p = .ok place) :
    checkPath p = .ok () := by
  rw [resolve_eq] at h
  obtain ⟨_, hcheck, -⟩ := of_bind_ok h
  exact hcheck

theorem resolve_ok {p : Path} {place : Place} (h : fs.resolve p = .ok place) :
    (∀ v ∈ p.passed, fs.HasDirectory v) ∧ place = p.place := by
  rw [resolve_eq] at h
  cases hcheck : checkPath p with
  | error e => rw [hcheck] at h; cases h
  | ok u =>
    rw [hcheck] at h
    dsimp only [Except.bind] at h
    split_ifs at h
    exact foldlM_follow_ok h

theorem resolve_congr {p : Path} (h : ∀ v ∈ p.passed, fs'.lookup v = fs.lookup v) :
    fs'.resolve p = fs.resolve p := by
  rw [resolve_eq, resolve_eq, foldlM_follow_congr h]

theorem stat_eq (fs : FileSystem) (p : Path) : fs.stat p =
    (fs.resolve p).bind fun place => (fs.lookup place).elim (.error .notFound) .ok := by
  unfold stat
  cases fs.resolve p with
  | error e => rfl
  | ok place =>
    dsimp only [bind, Except.bind]
    cases fs.lookup place <;> rfl

theorem stat_congr {p : Path} (h : ∀ v ∈ p.passed, fs'.lookup v = fs.lookup v)
    (hplace : fs'.lookup p.place = fs.lookup p.place) : fs'.stat p = fs.stat p := by
  rw [stat_eq, stat_eq, resolve_congr h]
  cases hresolve : fs.resolve p with
  | error e => rfl
  | ok place =>
    obtain ⟨-, rfl⟩ := resolve_ok hresolve
    dsimp only [Except.bind]
    rw [hplace]

theorem read_congr {p : Path} (h : ∀ v ∈ p.passed, fs'.lookup v = fs.lookup v)
    (hplace : fs'.lookup p.place = fs.lookup p.place) : fs'.read p = fs.read p := by
  unfold read
  rw [stat_congr h hplace]

theorem isFile_congr {p : Path} (h : ∀ v ∈ p.passed, fs'.lookup v = fs.lookup v)
    (hplace : fs'.lookup p.place = fs.lookup p.place) : fs'.isFile p = fs.isFile p := by
  unfold isFile
  rw [stat_congr h hplace]

theorem stat_ok {p : Path} {entry : FileEntry} (h : fs.stat p = .ok entry) :
    fs.resolve p = .ok p.place ∧ fs.lookup p.place = some entry := by
  rw [stat_eq] at h
  obtain ⟨place, hresolve, h⟩ := of_bind_ok h
  obtain ⟨-, rfl⟩ := resolve_ok hresolve
  refine ⟨hresolve, ?_⟩
  cases hentry : fs.lookup p.place with
  | none => rw [hentry] at h; cases h
  | some found => rw [hentry] at h; cases h; rfl

theorem stat_of_lookup {p : Path} {entry : FileEntry} (h : fs.resolve p = .ok p.place)
    (hentry : fs.lookup p.place = some entry) : fs.stat p = .ok entry := by
  rw [stat_eq, h]
  dsimp only [Except.bind]
  rw [hentry]
  rfl

theorem read_ok {p : Path} {content : Bytes} (h : fs.read p = .ok content) :
    ∃ mode, fs.lookup p.place = some (.file content mode) := by
  unfold read at h
  obtain ⟨entry, hstat, h⟩ := of_bind_ok h
  obtain ⟨-, h⟩ := of_guard_ok h
  cases entry with
  | directory => cases h
  | file found mode =>
    cases h
    exact ⟨mode, (stat_ok hstat).2⟩

theorem read_of_resolve_error {p : Path} {e : FileError} (h : fs.resolve p = .error e) :
    fs.read p = .error e := by
  unfold read
  rw [stat_eq, h]
  rfl

theorem read_of_lookup {p : Path} {content : Bytes} {mode : Mode} (h : fs.resolve p = .ok p.place)
    (hentry : fs.lookup p.place = some (.file content mode)) (hmode : mode.isReadable = true) :
    fs.read p = .ok content := by
  unfold read
  rw [stat_of_lookup h hentry]
  show (if (!mode.isReadable) = true then _ else _) = _
  rw [hmode]
  rfl

theorem read_of_lookup_none {p : Path} (h : fs.resolve p = .ok p.place)
    (hnone : fs.lookup p.place = none) : fs.read p = .error .notFound := by
  unfold read
  rw [stat_eq, h]
  dsimp only [Except.bind]
  rw [hnone]
  rfl

theorem isFile_iff {p : Path} : fs.isFile p = true ↔
    fs.resolve p = .ok p.place ∧ ∃ content mode, fs.lookup p.place = some (.file content mode) := by
  constructor
  · intro h
    unfold isFile at h
    cases hstat : fs.stat p with
    | error e => rw [hstat] at h; cases h
    | ok entry =>
      obtain ⟨hresolve, hentry⟩ := stat_ok hstat
      rw [hstat] at h
      cases entry with
      | file content mode => exact ⟨hresolve, content, mode, hentry⟩
      | directory mode => cases h
  · rintro ⟨hresolve, content, mode, hentry⟩
    unfold isFile
    rw [stat_of_lookup hresolve hentry]

/-! ## The entries of a directory -/

/-- The path of an entry is followed through its directory. -/
theorem resolve_child (fs : FileSystem) (p : Path) {name : FileName} (hname : Path.IsName name) :
    fs.resolve (p.child name) = (checkPath (p.child name)).bind fun _ =>
      (p.directoryParts.foldlM fs.follow []).bind fun place => fs.follow place name := by
  have hparts : (p.child name).parts ≠ [("" : FileName)] := by
    intro heq
    have hlast := congrArg List.getLast? heq
    simp [Path.child, hname.1] at hlast
  rw [resolve_eq, if_neg hparts]
  show (checkPath (p.child name)).bind (fun _ =>
    (p.directoryParts ++ [name]).foldlM fs.follow []) = _
  rw [List.foldlM_append]
  congr 1
  funext _
  show (p.directoryParts.foldlM fs.follow []).bind (fun place => [name].foldlM fs.follow place) = _
  congr 1
  funext place
  rw [List.foldlM_cons]
  cases fs.follow place name <;> rfl

/-- An entry that is missing from a new directory is refused as it was without the directory. -/
theorem read_child_congr {p : Path} {name : FileName} (hname : Path.IsName name)
    (hsize : name.size ≤ 255) (hpassed : ∀ v ∈ p.passed, fs'.lookup v = fs.lookup v)
    (hbefore : fs.lookup p.place = none)
    (hafter : fs'.lookup p.place = some (.directory .ofDirectory))
    (hmissing : fs'.lookup (p.child name).place = none) :
    fs'.read (p.child name) = fs.read (p.child name) := by
  have hfold : p.directoryParts.foldlM fs'.follow [] = p.directoryParts.foldlM fs.follow [] :=
    foldlM_follow_congr fun v hv => hpassed v (Path.passes_directoryParts_subset _ hv)
  have hresolve := resolve_child fs p hname
  have hresolve' := resolve_child fs' p hname
  rw [hfold] at hresolve'
  cases hcheck : checkPath (p.child name) with
  | error e =>
    rw [hcheck] at hresolve hresolve'
    rw [read_of_resolve_error hresolve, read_of_resolve_error hresolve']
  | ok u =>
    rw [hcheck] at hresolve hresolve'
    cases hdir : p.directoryParts.foldlM fs.follow [] with
    | error e =>
      rw [hdir] at hresolve hresolve'
      rw [read_of_resolve_error hresolve, read_of_resolve_error hresolve']
    | ok v =>
      have hv : v = p.place := by
        rw [(foldlM_follow_ok hdir).2, Path.walk_directoryParts]
      rw [hdir] at hresolve hresolve'
      change _ = fs.follow v name at hresolve
      change _ = fs'.follow v name at hresolve'
      rw [hv, follow_none hbefore] at hresolve
      rw [hv, follow_name hafter (by decide) hname hsize, ← Path.place_child p hname] at hresolve'
      rw [read_of_resolve_error hresolve, read_of_lookup_none hresolve' hmissing]

/-- The entries of the directory that a path names can be asked for. -/
def CanEnter (fs : FileSystem) (p : Path) : Prop :=
  p.directoryParts.foldlM fs.follow [] = .ok p.place ∧ fs.follow p.place "." = .ok p.place

theorem CanEnter.congr {p : Path} (h : fs.CanEnter p)
    (hpassed : ∀ v ∈ p.passed, fs'.lookup v = fs.lookup v)
    (hplace : fs'.lookup p.place = fs.lookup p.place) : fs'.CanEnter p := by
  constructor
  · rw [← h.1]
    apply foldlM_follow_congr
    intro v hv
    exact hpassed v (Path.passes_directoryParts_subset p hv)
  · rw [← h.2]
    exact follow_congr hplace "."

theorem CanEnter.hasDirectory {p : Path} (h : fs.CanEnter p) {v : Place}
    (hv : v ∈ p.passed ∨ v = p.place) : fs.HasDirectory v := by
  rcases Path.mem_passes_directoryParts hv with hv | rfl
  · exact (foldlM_follow_ok h.1).1 v hv
  · exact (follow_ok h.2).1

theorem CanEnter.follow {p : Path} {name : FileName} (h : fs.CanEnter p) (hname : Path.IsName name)
    (hsize : name.size ≤ 255) : fs.follow p.place name = .ok (p.place ++ [name]) := by
  obtain ⟨-, henter⟩ := h
  obtain ⟨⟨mode, hmode⟩, -⟩ := follow_ok henter
  apply follow_name hmode _ hname hsize
  unfold FileSystem.follow at henter
  rw [hmode] at henter
  dsimp only at henter
  by_contra hsearch
  rw [if_neg (by decide), if_pos (by simpa using hsearch)] at henter
  cases henter

theorem CanEnter.resolve {p : Path} {name : FileName} (h : fs.CanEnter p) (hname : Path.IsName name)
    (hsize : name.size ≤ 255) (hcheck : checkPath (p.child name) = .ok ()) :
    fs.resolve (p.child name) = .ok (p.child name).place := by
  rw [resolve_child fs p hname, hcheck, h.1, Path.place_child p hname]
  exact h.follow hname hsize

theorem CanEnter.child {p : Path} {name : FileName} (h : fs.CanEnter p) (hname : Path.IsName name)
    (hsize : name.size ≤ 255) {mode : Mode}
    (hentry : fs.lookup (p.place ++ [name]) = some (.directory mode))
    (hmode : mode.isSearchable = true) : fs.CanEnter (p.child name) := by
  unfold CanEnter
  rw [Path.directoryParts_child p hname, Path.place_child p hname]
  constructor
  · show (p.directoryParts ++ [name]).foldlM fs.follow [] = _
    rw [List.foldlM_append, h.1]
    show [name].foldlM fs.follow p.place = _
    rw [List.foldlM_cons, h.follow hname hsize]
    rfl
  · unfold FileSystem.follow
    rw [hentry]
    simp [hmode]

theorem target_ok {p : Path} {t : Target} (h : fs.target p = .ok t) :
    checkPath p = .ok () ∧ t.name ≠ "" ∧ p.place = Path.step t.parent t.name := by
  unfold target at h
  obtain ⟨⟨⟩, hcheck, h⟩ := of_bind_ok h
  cases hsplit : p.split? with
  | none => rw [hsplit] at h; cases h
  | some parts =>
    obtain ⟨before, name, slash⟩ := parts
    rw [hsplit] at h
    obtain ⟨parent, hparent, h⟩ := of_bind_ok h
    obtain ⟨-, -, h⟩ := of_bind_ok h
    cases h
    obtain ⟨-, rfl⟩ := foldlM_follow_ok hparent
    exact ⟨hcheck, (Path.of_split? hsplit).1, Path.place_of_split? hsplit⟩

theorem canEnter_of_target {p : Path} {name : FileName} (hname : Path.IsName name) {t : Target}
    (h : fs.target (p.child name) = .ok t) : fs.CanEnter p := by
  unfold target at h
  obtain ⟨-, -, h⟩ := of_bind_ok h
  rw [Path.split?_child p hname] at h
  obtain ⟨parent, hparent, h⟩ := of_bind_ok h
  obtain ⟨same, hsame, -⟩ := of_bind_ok h
  obtain ⟨-, hplace⟩ := foldlM_follow_ok hparent
  rw [Path.walk_directoryParts] at hplace
  obtain ⟨-, hstep⟩ := follow_ok hsame
  rw [hplace] at hparent hsame hstep
  rw [hstep] at hsame
  exact ⟨hparent, hsame⟩

/-! ## Operations that are not refused -/

theorem place_of_target {p : Path} {t : Target} (h : fs.target p = .ok t) (hdots : ¬t.isDots) :
    p.place = t.parent ++ [t.name] := by
  obtain ⟨-, hne, hplace⟩ := target_ok h
  simp only [Target.isDots, Bool.or_eq_true, decide_eq_true_eq, not_or] at hdots
  rw [hplace, Path.step_name _ ⟨hne, hdots⟩]

theorem makeDirectory_ok {p : Path} (h : fs.makeDirectory p = .ok fs') :
    fs.HasDirectory p.place.dropLast ∧ fs.lookup p.place = none ∧
      fs' = fs.put p.place (.directory .ofDirectory) := by
  unfold makeDirectory at h
  obtain ⟨t, ht, h⟩ := of_bind_ok h
  obtain ⟨hdots, h⟩ := of_guard_ok h
  obtain ⟨place, hplace, h⟩ := of_bind_ok h
  obtain ⟨hnone, h⟩ := of_guard_ok h
  obtain ⟨-, -, h⟩ := of_bind_ok h
  obtain ⟨hparent, rfl⟩ := follow_ok hplace
  rw [← (target_ok ht).2.2] at hnone h
  cases h
  refine ⟨?_, by simpa using hnone, rfl⟩
  rw [place_of_target ht hdots, List.dropLast_concat]
  exact hparent

theorem createFile_ok {p : Path} (h : fs.createFile p = .ok fs') :
    fs.lookup p.place = none ∧ fs' = fs.put p.place (.file [] .ofPrivate) := by
  unfold createFile at h
  obtain ⟨t, ht, h⟩ := of_bind_ok h
  obtain ⟨-, h⟩ := of_guard_ok h
  obtain ⟨place, hplace, h⟩ := of_bind_ok h
  obtain ⟨hnone, h⟩ := of_guard_ok h
  obtain ⟨-, -, h⟩ := of_bind_ok h
  obtain ⟨-, rfl⟩ := follow_ok hplace
  rw [← (target_ok ht).2.2] at hnone h
  cases h
  exact ⟨by simpa using hnone, rfl⟩

/-- A file is written at the place of its path. A new one gets the mode of new files, and one that
is there keeps its own. -/
theorem openForWriting_ok {p : Path} {place : Place} {mode : Mode}
    (h : fs.openForWriting p = .ok (place, mode)) :
    checkPath p = .ok () ∧ place = p.place ∧ (fs.lookup p.place = none → mode = .ofFile) ∧
      ∀ old oldMode, fs.lookup p.place = some (.file old oldMode) → mode = oldMode := by
  unfold openForWriting at h
  obtain ⟨t, ht, h⟩ := of_bind_ok h
  obtain ⟨-, h⟩ := of_guard_ok h
  obtain ⟨next, hnext, h⟩ := of_bind_ok h
  obtain ⟨-, rfl⟩ := follow_ok hnext
  refine ⟨(target_ok ht).1, ?_⟩
  rw [← (target_ok ht).2.2] at h
  cases hentry : fs.lookup p.place with
  | none =>
    rw [hentry] at h
    obtain ⟨-, -, h⟩ := of_bind_ok h
    cases h
    exact ⟨rfl, fun _ => rfl, nofun⟩
  | some entry =>
    rw [hentry] at h
    cases entry with
    | directory => cases h
    | file old oldMode =>
      dsimp only at h
      split_ifs at h
      cases h
      refine ⟨rfl, nofun, ?_⟩
      rintro _ _ ⟨⟩
      rfl

theorem writeFile_ok {p : Path} {content : Bytes} (h : fs.writeFile p content = .ok fs') :
    checkPath p = .ok () ∧ ∃ mode, fs' = fs.put p.place (.file content mode) := by
  unfold writeFile at h
  obtain ⟨⟨place, mode⟩, hopen, h⟩ := of_bind_ok h
  cases h
  obtain ⟨hcheck, rfl, -⟩ := openForWriting_ok hopen
  exact ⟨hcheck, mode, rfl⟩

theorem writeFile_new {p : Path} {content : Bytes} (h : fs.writeFile p content = .ok fs')
    (hnone : fs.lookup p.place = none) : fs' = fs.put p.place (.file content .ofFile) := by
  unfold writeFile at h
  obtain ⟨⟨place, mode⟩, hopen, h⟩ := of_bind_ok h
  cases h
  obtain ⟨-, rfl, hmode, -⟩ := openForWriting_ok hopen
  rw [hmode hnone]

theorem writeFile_old {p : Path} {content old : Bytes} {mode : Mode}
    (h : fs.writeFile p content = .ok fs') (hold : fs.lookup p.place = some (.file old mode)) :
    fs' = fs.put p.place (.file content mode) := by
  unfold writeFile at h
  obtain ⟨⟨place, mode⟩, hopen, h⟩ := of_bind_ok h
  cases h
  obtain ⟨-, rfl, -, hmode⟩ := openForWriting_ok hopen
  rw [hmode _ _ hold]

theorem removeFile_ok {p : Path} (h : fs.removeFile p = .ok fs') :
    (∃ content mode, fs.lookup p.place = some (.file content mode)) ∧
      fs' = fs.dropTree p.place := by
  unfold removeFile at h
  obtain ⟨t, ht, h⟩ := of_bind_ok h
  obtain ⟨-, h⟩ := of_guard_ok h
  obtain ⟨place, hplace, h⟩ := of_bind_ok h
  obtain ⟨-, rfl⟩ := follow_ok hplace
  rw [← (target_ok ht).2.2] at h
  cases hentry : fs.lookup p.place with
  | none => rw [hentry] at h; cases h
  | some entry =>
    rw [hentry] at h
    cases entry with
    | file content mode =>
      obtain ⟨-, h⟩ := of_guard_ok h
      obtain ⟨-, -, h⟩ := of_bind_ok h
      cases h
      exact ⟨⟨content, mode, rfl⟩, rfl⟩
    | directory mode =>
      have h := of_check_ok h
      cases h

/-- A move carries a place to one that is neither above nor below it, and a file replaces no
directory. -/
theorem move_ok {a b : Path} (h : fs.move a b = .ok fs') : a.place = b.place ∧ fs' = fs ∨
    ∃ entry, fs.lookup a.place = some entry ∧ ¬ a.place <+: b.place ∧ ¬ b.place <+: a.place ∧
      (∀ replaced, fs.lookup b.place = some replaced →
        replaced.isDirectory = entry.isDirectory) ∧ fs' = fs.carry a.place b.place := by
  unfold move at h
  obtain ⟨-, -, h⟩ := of_bind_ok h
  obtain ⟨-, -, h⟩ := of_bind_ok h
  obtain ⟨s, hs, h⟩ := of_bind_ok h
  obtain ⟨t, ht, h⟩ := of_bind_ok h
  obtain ⟨hdots, h⟩ := of_guard_ok h
  obtain ⟨source, hsource, h⟩ := of_bind_ok h
  obtain ⟨-, rfl⟩ := follow_ok hsource
  rw [Bool.or_eq_true, not_or] at hdots
  rw [← (target_ok hs).2.2] at h
  cases hentry : fs.lookup a.place with
  | none => rw [hentry] at h; cases h
  | some entry =>
    rw [hentry] at h
    obtain ⟨target, htarget, h⟩ := of_bind_ok h
    obtain ⟨-, rfl⟩ := follow_ok htarget
    rw [← (target_ok ht).2.2] at h
    obtain ⟨-, h⟩ := of_guard_ok h
    obtain ⟨hbelow, h⟩ := of_guard_ok h
    obtain ⟨habove, h⟩ := of_guard_ok h
    rcases ite_eq_iff.1 h with ⟨hsame, h⟩ | ⟨hsame, h⟩
    · cases h
      exact Or.inl ⟨hsame, rfl⟩
    obtain ⟨-, -, h⟩ := of_bind_ok h
    obtain ⟨-, -, h⟩ := of_bind_ok h
    right
    refine ⟨entry, rfl, ?_, ?_, ?_⟩
    · rw [place_of_target ht hdots.2]
      intro hpre
      rcases List.prefix_concat_iff.mp hpre with heq | hpre
      · exact hsame (heq.trans (place_of_target ht hdots.2).symm)
      · exact hbelow (List.isPrefixOf_iff_prefix.mpr hpre)
    · rw [place_of_target hs hdots.1]
      intro hpre
      rcases List.prefix_concat_iff.mp hpre with heq | hpre
      · exact hsame ((place_of_target hs hdots.1).trans heq.symm)
      · exact habove (List.isPrefixOf_iff_prefix.mpr hpre)
    · cases hreplaced : fs.lookup b.place with
      | none =>
        rw [hreplaced] at h
        rcases ite_eq_iff.1 (of_check_ok h) with ⟨-, h⟩ | ⟨-, h⟩ <;> cases h
        refine ⟨?_, rfl⟩
        intro replaced hsome
        cases hsome
      | some replaced =>
        rw [hreplaced] at h
        obtain ⟨hfile, h⟩ := of_guard_ok h
        obtain ⟨hdirectory, h⟩ := of_guard_ok h
        rcases ite_eq_iff.1 (of_check_ok h) with ⟨-, h⟩ | ⟨-, h⟩ <;> cases h
        refine ⟨fun other hother => ?_, rfl⟩
        cases hother
        cases hkind : entry.isDirectory <;> cases hold : replaced.isDirectory <;>
          simp [hkind, hold] at hfile hdirectory ⊢

end PluginRegistry.FileSystem
