import Mathlib.Data.List.Find
import PluginRegistry.Cache.Location
import PluginRegistry.Proofs.Generations
import PluginRegistry.Proofs.Trees

/-!
# What a publication adds before it is live

Until the manifest is replaced a publication only adds to the file system (`Extends`): missing
directories above the one it writes to, and in that one entries under new names, with sections in
them (`Draft`). None of that is a manifest, and none of it is in a generation that a manifest
names, so what a directory held before can be read as before (`Extends.isFile_manifest`,
`Extends.loadParts_eq`).
-/

namespace PluginRegistry.Cache

open FileSystem Generation

/-! ## What loading depends on -/

theorem mapM_congr {α β : Type} {f g : α → Except Error β} {items : List α}
    (h : ∀ a ∈ items, f a = g a) : items.mapM f = items.mapM g := by
  induction items with
  | nil => rfl
  | cons a items ih =>
    rw [List.mapM_cons, List.mapM_cons, h a List.mem_cons_self,
      ih fun b hb => h b (List.mem_cons_of_mem a hb)]

theorem loadParts_congr {digest : DigestFunction} {files files' : FileSystem} {base : Path}
    (hmanifest : readManifest files' base = readManifest files base)
    (hsections : ∀ m, readManifest files base = .ok (some m) → ∀ s ∈ Section.data,
      files'.read ((directory base m.generation).child s.entry) =
        files.read ((directory base m.generation).child s.entry)) (fingerprint : UInt64) :
    loadParts digest files' base fingerprint = loadParts digest files base fingerprint := by
  unfold loadParts
  rw [hmanifest]
  cases hm : readManifest files base with
  | error e => rfl
  | ok found =>
    cases found with
    | none => rfl
    | some m =>
      have hgeneration : readGeneration digest files' base m =
          readGeneration digest files base m := by
        unfold readGeneration
        congr 1
        apply mapM_congr
        intro s hs
        dsimp only
        rw [hsections m hm s hs]
      show (if _ then _ else _) = (if _ then _ else _)
      simp only [hgeneration]

/-! ## Drafts -/

/-- An entry that may be new: a directory above a place, or an entry of the directory at that
place with one of some names, or a section in it. -/
inductive Draft (place : Place) (names : List FileName) : Place → FileEntry → Prop
  | above {q : Place} : q <+: place → Draft place names q (.directory .ofDirectory)
  | named {name : FileName} (entry : FileEntry) : name ∈ names →
      Draft place names (place ++ [name]) entry
  | inside {name : FileName} {s : Section} (entry : FileEntry) : name ∈ names → s ∈ Section.data →
      Draft place names (place ++ [name, s.entry]) entry

/-- All that was there is still there, and all that is new is a draft. -/
structure Extends (place : Place) (names : List FileName) (before after : FileSystem) : Prop where
  keeps {q : Place} {entry : FileEntry} : before.lookup q = some entry →
    after.lookup q = some entry
  adds {q : Place} {entry : FileEntry} : after.lookup q = some entry →
    before.lookup q = some entry ∨ Draft place names q entry

variable {place : Place} {names : List FileName} {before after : FileSystem}

theorem last_eq {above other : Place} {a b c : FileName} (h : above ++ [a] = other ++ [b, c]) :
    a = c := by
  rw [List.append_cons other b [c]] at h
  exact (List.cons.inj (List.append_inj' h rfl).2).1

namespace Draft

variable {q : Place} {entry : FileEntry}

theorem near (h : Draft place names q entry) : q <+: place ∨ place <+: q := by
  cases h with
  | above h => exact Or.inl h
  | named | inside => exact Or.inr (List.prefix_append place _)

theorem not_manifest (hnames : ∀ n ∈ names, ∀ s : Section, n ≠ s.entry) {base : Place}
    {content : Bytes} {mode : Mode} :
    ¬ Draft place names (base ++ [Section.manifest.entry]) (.file content mode) := by
  intro h
  generalize hq : base ++ [Section.manifest.entry] = q at h
  cases h with
  | named _ hname =>
    obtain ⟨-, heq⟩ := List.append_inj' hq rfl
    exact hnames _ hname .manifest (List.cons.inj heq).1.symm
  | @inside name s _ _ hs =>
    have hmanifest : Section.manifest = s := Section.entry_inj (last_eq hq)
    rw [← hmanifest] at hs
    exact absurd hs (by decide)

end Draft

namespace Extends

theorem lookup_cases (h : Extends place names before after) (q : Place) :
    after.lookup q = before.lookup q ∨
      before.lookup q = none ∧
        ∃ entry, after.lookup q = some entry ∧ Draft place names q entry := by
  cases hbefore : before.lookup q with
  | some entry => exact Or.inl (h.keeps hbefore)
  | none =>
    cases hafter : after.lookup q with
    | none => exact Or.inl rfl
    | some entry =>
      rcases h.adds hafter with hold | hdraft
      · rw [hbefore] at hold
        cases hold
      · exact Or.inr ⟨rfl, entry, rfl, hdraft⟩

/-! ## Manifests -/

theorem hasDirectory (h : Extends place names before after) {q : Place}
    (hq : before.HasDirectory q) : after.lookup q = before.lookup q := by
  obtain ⟨mode, hmode⟩ := hq
  rw [hmode, h.keeps hmode]

theorem resolve_eq (h : Extends place names before after) {p : Path} {q : Place}
    (hp : before.resolve p = .ok q) : after.resolve p = .ok q := by
  rw [← hp]
  exact resolve_congr fun v hv => h.hasDirectory ((resolve_ok hp).1 v hv)

/-- No new directory is one that a path steps back from, if none of those near the place was
missing. -/
theorem lookup_left (h : Extends place names before after) {p : Path}
    (hleft : ∀ v ∈ p.left, (v <+: place ∨ place <+: v) → before.lookup v ≠ none) :
    ∀ v ∈ p.left, before.lookup v = none → after.lookup v = none := by
  intro v hv hnone
  rcases h.lookup_cases v with hsame | ⟨-, _, -, hdraft⟩
  · rw [hsame, hnone]
  · exact absurd hnone (hleft v hv hdraft.near)

/-- A path that is followed to an old entry was followed to it before, unless it steps back from a
directory that is new. -/
theorem resolve_before (h : Extends place names before after) (tree : before.IsTree) {p : Path}
    {entry : FileEntry} (hentry : before.lookup p.place = some entry)
    (hleft : ∀ v ∈ p.left, before.lookup v = none → after.lookup v = none)
    (hp : after.resolve p = .ok p.place) : before.resolve p = .ok p.place := by
  rw [← hp]
  apply resolve_congr
  intro v hv
  rcases h.lookup_cases v with hsame | ⟨hbefore, _, hafter, -⟩
  · exact hsame.symm
  · have hnot : v ∉ p.left := by
      intro hmem
      rw [hleft v hmem hbefore] at hafter
      cases hafter
    have hnone := tree.lookup_below hbefore (Path.prefix_of_passed hv hnot)
    rw [hentry] at hnone
    cases hnone

theorem isFile_manifest (h : Extends place names before after) (tree : before.IsTree)
    (hnames : ∀ n ∈ names, ∀ s : Section, n ≠ s.entry) {base : Path}
    (hleft : ∀ v ∈ base.left, before.lookup v = none → after.lookup v = none) :
    after.isFile (manifestPath base) = before.isFile (manifestPath base) := by
  have hname := isName_entry .manifest
  rw [Bool.eq_iff_iff, isFile_iff, isFile_iff]
  constructor
  · rintro ⟨hresolve, content, mode, hfile⟩
    rcases h.adds hfile with hold | hdraft
    · refine ⟨?_, content, mode, hold⟩
      apply h.resolve_before tree hold _ hresolve
      intro v hv
      exact hleft v ((Path.mem_left_child hname).mp hv)
    · unfold manifestPath at hdraft
      rw [Path.place_child base hname] at hdraft
      exact absurd hdraft (Draft.not_manifest hnames)
  · rintro ⟨hresolve, content, mode, hfile⟩
    exact ⟨h.resolve_eq hresolve, content, mode, h.keeps hfile⟩

theorem readManifest_eq (h : Extends place names before after) {base : Path}
    (hfile : before.isFile (manifestPath base) = true) :
    readManifest after base = readManifest before base := by
  obtain ⟨hresolve, content, mode, hfile⟩ := isFile_iff.mp hfile
  have hread : after.read (manifestPath base) = before.read (manifestPath base) := by
    apply read_congr
    · intro v hv
      exact h.hasDirectory ((resolve_ok hresolve).1 v hv)
    · rw [hfile, h.keeps hfile]
  unfold readManifest
  rw [hread]

/-! ## Sections -/

variable {base : Path} {generation : UInt64} {s : Section}

theorem place_directory (base : Path) (generation : UInt64) :
    (directory base generation).place = base.place ++ [name generation] :=
  Path.place_child base (isName_name generation)

theorem place_section (base : Path) (generation : UInt64) (s : Section) :
    ((directory base generation).child s.entry).place =
      base.place ++ [name generation, s.entry] := by
  rw [Path.place_child _ (isName_entry s), place_directory, List.append_assoc]
  rfl

theorem lookup_section (h : Extends place names before after)
    (hnames : ∀ n ∈ names, ∀ s : Section, n ≠ s.entry)
    (hlive : base.place = place → name generation ∉ names)
    (hapart : ¬ base.place ++ [name generation, s.entry] <+: place) :
    after.lookup (base.place ++ [name generation, s.entry]) =
      before.lookup (base.place ++ [name generation, s.entry]) := by
  rcases h.lookup_cases (base.place ++ [name generation, s.entry]) with
    hsame | ⟨-, entry, -, hdraft⟩
  · exact hsame
  · generalize hq : base.place ++ [name generation, s.entry] = q at hapart hdraft
    cases hdraft with
    | above habove => exact absurd habove hapart
    | named _ hname => exact absurd (last_eq hq.symm) (hnames _ hname s)
    | inside _ hname =>
      obtain ⟨hplace, hrest⟩ := List.append_inj' hq rfl
      rw [← (List.cons.inj hrest).1] at hname
      exact absurd hname (hlive hplace)

theorem lookup_directory (h : Extends place names before after)
    (hlive : base.place = place → name generation ∉ names) :
    after.lookup (base.place ++ [name generation]) =
        before.lookup (base.place ++ [name generation]) ∨
      before.lookup (base.place ++ [name generation]) = none ∧
        after.lookup (base.place ++ [name generation]) = some (.directory .ofDirectory) := by
  rcases h.lookup_cases (base.place ++ [name generation]) with
    hsame | ⟨hbefore, entry, hafter, hdraft⟩
  · exact Or.inl hsame
  · refine Or.inr ⟨hbefore, ?_⟩
    rw [hafter]
    generalize hq : base.place ++ [name generation] = q at hdraft
    cases hdraft with
    | above => rfl
    | named _ hname =>
      obtain ⟨hplace, hrest⟩ := List.append_inj' hq rfl
      rw [← (List.cons.inj hrest).1] at hname
      exact absurd hname (hlive hplace)
    | inside => exact absurd (last_eq hq) (name_ne_entry _ _)

/-- A section that is neither new nor gone is read as before. If the generation's directory has
only now come up above the place, the section is missing all the same. -/
theorem read_section_of_lookup (h : Extends place names before after) (tree : before.IsTree)
    (hfile : before.isFile (manifestPath base) = true)
    (hlive : base.place = place → name generation ∉ names)
    (hsection : after.lookup (base.place ++ [name generation, s.entry]) =
      before.lookup (base.place ++ [name generation, s.entry])) :
    after.read ((directory base generation).child s.entry) =
      before.read ((directory base generation).child s.entry) := by
  rw [← place_section] at hsection
  have hway : ∀ v ∈ (directory base generation).passed, after.lookup v = before.lookup v := by
    intro v hv
    apply h.hasDirectory
    apply (resolve_ok (isFile_iff.mp hfile).1).1
    exact Path.mem_passed_child.mpr (Path.mem_passed_child.mp hv)
  rcases h.lookup_directory hlive with hsame | ⟨hbefore, hafter⟩
  · apply read_congr _ hsection
    intro v hv
    rcases Path.mem_passed_child.mp hv with hv | rfl
    · exact hway v hv
    · rw [place_directory]
      exact hsame
  · rw [← place_directory] at hbefore hafter
    have hmissing : after.lookup ((directory base generation).child s.entry).place = none := by
      rw [hsection]
      apply tree.lookup_below hbefore
      rw [Path.place_child _ (isName_entry s)]
      exact List.prefix_append _ _
    have hlong : s.entry.size ≤ 255 := by cases s <;> decide
    exact read_child_congr (isName_entry s) hlong hway hbefore hafter hmissing

theorem read_section (h : Extends place names before after) (tree : before.IsTree)
    (hnames : ∀ n ∈ names, ∀ s : Section, n ≠ s.entry)
    (hfile : before.isFile (manifestPath base) = true)
    (hlive : base.place = place → name generation ∉ names)
    (hapart : ¬ base.place ++ [name generation, s.entry] <+: place) :
    after.read ((directory base generation).child s.entry) =
      before.read ((directory base generation).child s.entry) :=
  h.read_section_of_lookup tree hfile hlive (h.lookup_section hnames hlive hapart)

/-! ## Loading -/

variable {digest : DigestFunction}

theorem loadParts_eq (h : Extends place names before after) (tree : before.IsTree)
    (hnames : ∀ n ∈ names, ∀ s : Section, n ≠ s.entry)
    (hfile : before.isFile (manifestPath base) = true)
    (hlive : ∀ m, readManifest before base = .ok (some m) → base.place = place →
      name m.generation ∉ names)
    (hapart : ∀ m, readManifest before base = .ok (some m) → ∀ s ∈ Section.data,
      ¬ base.place ++ [name m.generation, s.entry] <+: place) (fingerprint : UInt64) :
    loadParts digest after base fingerprint = loadParts digest before base fingerprint := by
  apply loadParts_congr (h.readManifest_eq hfile)
  intro m hm s hs
  exact h.read_section tree hnames hfile (hlive m hm) (hapart m hm s hs)

end Extends

/-- A publication does not change what the paths of a location name: the primary path steps back
only from directories that are there, none of them a generation or staging directory of its own;
the alternative path does not step back from a directory that the publication could make, above
the primary directory or in it; and the primary directory is not made where the alternative one
has a section. -/
structure Location.Settled (l : Location) (files : FileSystem) : Prop where
  primary_left {base : Path} : base ∈ l.primary → ∀ v ∈ base.left, files.lookup v ≠ none
  primary_kept {base : Path} : base ∈ l.primary → ∀ v ∈ base.left, ∀ n,
    base.place ++ [n] <+: v → isStale none n = false
  alternative_left {base other : Path} : base ∈ l.primary → other ∈ l.alternative →
    ∀ v ∈ other.left, (v <+: base.place ∨ base.place <+: v) → files.lookup v ≠ none
  alternative_apart {base other : Path} : base ∈ l.primary → other ∈ l.alternative →
    ∀ m, readManifest files other = .ok (some m) → ∀ s ∈ Section.data,
      ¬ ((directory other m.generation).child s.entry).place <+: base.place

/-- A location with drafts in its primary directory loads what it loaded before. -/
theorem Extends.load_eq {l : Location} {base : Path} (hbase : base ∈ l.primary)
    (h : Extends base.place names before after) (settled : l.Settled before)
    (tree : before.IsTree) (hnames : ∀ n ∈ names, ∀ s : Section, n ≠ s.entry)
    (hlive : ∀ other : Path, before.isFile (manifestPath other) = true →
      ∀ m, readManifest before other = .ok (some m) → other.place = base.place →
        name m.generation ∉ names)
    (digest : DigestFunction) (fingerprint : UInt64) :
    l.load digest after fingerprint = l.load digest before fingerprint := by
  have hprobe : l.probe after = l.probe before := by
    unfold Location.probe
    apply List.find?_congr
    intro other hother
    apply h.isFile_manifest tree hnames
    apply h.lookup_left
    rcases List.mem_append.mp hother with hother | hother
    · intro v hv _
      exact settled.primary_left (Option.mem_toList.mp hother) v hv
    · exact settled.alternative_left hbase (Option.mem_toList.mp hother)
  unfold Location.load
  rw [hprobe]
  cases hfound : l.probe before with
  | none => rfl
  | some other =>
    have hfile := List.find?_some hfound
    have hparts : loadParts digest after other fingerprint =
        loadParts digest before other fingerprint := by
      apply h.loadParts_eq tree hnames hfile (hlive other hfile)
      intro m hm s hs hpre
      rcases List.mem_append.mp (List.mem_of_find?_eq_some hfound) with hother | hother
      · rw [Option.mem_toList, hbase] at hother
        cases hother
        have hlength := hpre.length_le
        rw [List.length_append] at hlength
        simp only [List.length_cons, List.length_nil] at hlength
        omega
      · apply settled.alternative_apart hbase (Option.mem_toList.mp hother) m hm s hs
        rw [Extends.place_section]
        exact hpre
    show (loadParts digest after other fingerprint).map _ = _
    rw [hparts]

end PluginRegistry.Cache
