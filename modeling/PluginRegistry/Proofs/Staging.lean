import PluginRegistry.Proofs.Drafts
import PluginRegistry.Proofs.Traces

/-!
# The steps before a generation is live

Each step up to the replacement of the manifest adds drafts or takes some away, so all of them lead
to an extension of the file system the publication began with (`extends_lineageTrace`,
`Plan.extends_fillStep`, `Plan.extends_draftStep`), whether the device refuses it or not, and
so does what is removed after a refusal.
-/

namespace PluginRegistry.Cache

open FileSystem Generation

variable {place : Place} {names : List FileName} {before after : FileSystem}

namespace Extends

/-! ## Changes that add drafts or take them away -/

theorem refl (place : Place) (names : List FileName) (files : FileSystem) :
    Extends place names files files :=
  ⟨id, Or.inl⟩

theorem mono (h : Extends place names before after) {more : List FileName} (hsub : names ⊆ more) :
    Extends place more before after where
  keeps := h.keeps
  adds hq := by
    rcases h.adds hq with hold | hdraft
    · exact Or.inl hold
    · right
      cases hdraft with
      | above habove => exact .above habove
      | named _ hname => exact .named _ (hsub hname)
      | inside _ hname hs => exact .inside _ (hsub hname) hs

theorem put (h : Extends place names before after) {q : Place} {entry : FileEntry}
    (hdraft : Draft place names q entry) (hnone : before.lookup q = none) :
    Extends place names before (after.put q entry) where
  keeps {r old} hr := by
    rw [lookup_put, if_neg]
    · exact h.keeps hr
    · rintro rfl
      rw [hnone] at hr
      cases hr
  adds {r found} hr := by
    rw [lookup_put] at hr
    split_ifs at hr with heq
    · cases hr
      exact Or.inr (heq ▸ hdraft)
    · exact h.adds hr

/-- What is taken away must have been new. -/
theorem shrink (h : Extends place names before after) {less : FileSystem}
    (hless : ∀ q, less.lookup q = after.lookup q ∨
      before.lookup q = none ∧ less.lookup q = none) :
    Extends place names before less where
  keeps {q old} hq := by
    rcases hless q with heq | ⟨hnone, -⟩
    · rw [heq]
      exact h.keeps hq
    · rw [hnone] at hq
      cases hq
  adds {q found} hq := by
    rcases hless q with heq | ⟨-, hnone⟩
    · rw [heq] at hq
      exact h.adds hq
    · rw [hnone] at hq
      cases hq

theorem carry (h : Extends place names before after) {source target : FileName}
    (hsource : ∀ q, place ++ [source] <+: q → before.lookup q = none)
    (htarget : ∀ q, place ++ [target] <+: q → before.lookup q = none) (hname : target ∈ names) :
    Extends place names before (after.carry (place ++ [source]) (place ++ [target])) where
  keeps {q old} hq := by
    have hnot : ∀ {n}, (∀ q, place ++ [n] <+: q → before.lookup q = none) →
        ¬ place ++ [n] <+: q := by
      intro n hnone hbelow
      rw [hnone q hbelow] at hq
      cases hq
    rw [lookup_carry, if_neg (hnot htarget), if_neg (hnot hsource)]
    exact h.keeps hq
  adds {q found} hq := by
    rw [lookup_carry] at hq
    split_ifs at hq with hto hfrom
    · obtain ⟨rest, rfl⟩ := hto
      rw [List.drop_left] at hq
      rcases h.adds hq with hold | hdraft
      · rw [hsource _ (List.prefix_append _ rest)] at hold
        cases hold
      · right
        generalize hr : place ++ [source] ++ rest = r at hdraft
        rw [List.append_assoc] at hr ⊢
        cases hdraft with
        | above habove =>
          rw [← hr] at habove
          have hlength := habove.length_le
          simp only [List.length_append, List.length_cons] at hlength
          omega
        | named =>
          have hrest : rest = [] := (List.cons.inj (List.append_cancel_left hr)).2
          rw [hrest]
          exact .named found hname
        | inside _ _ hs =>
          have hrest := (List.cons.inj (List.append_cancel_left hr)).2
          change rest = _ at hrest
          rw [hrest]
          exact .inside found hname hs
    · exact h.adds hq

end Extends

/-! ## Making the directory -/

theorem ensureDirectory_cases (fs : FileSystem) (p : Path) :
    (fs.ensureDirectory p).1 = fs ∨ fs.HasDirectory p.place.dropLast ∧ fs.lookup p.place = none ∧
      (fs.ensureDirectory p).1 = fs.put p.place (.directory .ofDirectory) := by
  unfold ensureDirectory
  cases hmake : fs.makeDirectory p with
  | error e => exact Or.inl rfl
  | ok made => exact Or.inr (makeDirectory_ok hmake)

theorem Extends.lookup_none (h : Extends place names before after) {q : Place}
    (hq : after.lookup q = none) : before.lookup q = none := by
  cases hold : before.lookup q with
  | none => rfl
  | some entry =>
    rw [h.keeps hold] at hq
    cases hq

theorem Extends.lookup_ne_none (h : Extends place names before after) {q : Place}
    (hq : before.lookup q ≠ none) : after.lookup q ≠ none :=
  fun hnone => hq (h.lookup_none hnone)

theorem extends_lineageTrace {files : FileSystem} (tree : files.IsTree) {base : Path}
    (hleft : ∀ v ∈ base.left, files.lookup v ≠ none) :
    ∀ crash ∈ files :: files.lineageTrace base.lineage,
      Extends base.place [] files crash ∧ crash.IsTree := by
  apply lineageTrace_invariant (P := fun crash => Extends base.place [] files crash ∧ crash.IsTree)
    _ ⟨Extends.refl _ _ files, tree⟩
  rintro p hp fs ⟨h, htree⟩
  rcases ensureDirectory_cases fs p with hsame | ⟨hparent, hnone, hmade⟩
  · rw [hsame]
    exact ⟨h, htree⟩
  · have hmissing := h.lookup_none hnone
    have habove : p.place <+: base.place := by
      rcases Path.place_of_lineage hp with hpassed | heq
      · exact Path.prefix_of_passed hpassed fun hmem => hleft _ hmem hmissing
      · rw [heq]
    rw [hmade]
    exact ⟨h.put (.above habove) hmissing, htree.put hparent hnone _⟩

theorem extends_makeDirectories {files : FileSystem} (tree : files.IsTree) {base : Path}
    (hleft : ∀ v ∈ base.left, files.lookup v ≠ none) :
    Extends base.place [] files (files.makeDirectories base).1 ∧
      (files.makeDirectories base).1.IsTree :=
  extends_lineageTrace tree hleft _ (files.makeLineage_mem_trace base.lineage)

/-! ## The steps of a plan -/

namespace Plan

/-- All names that a plan gives to entries of its directory, the manifest's apart. -/
def newNames (plan : Plan) : List FileName := [plan.staging, name plan.generation, plan.temporary]

/-- What a plan relies on: its names are new in a directory and not those of sections, its
sections are those of an image, and only older generations are stale. -/
structure Fits (plan : Plan) (before : FileSystem) : Prop where
  staging : IsHidden plan.staging
  long : (FileName.ofText stagingStem).size ≤ plan.staging.size
  temporary : IsHidden plan.temporary
  vacant : ∀ n ∈ plan.newNames, before.lookup (plan.base.place ++ [n]) = none
  sections : plan.sections.map Prod.fst = Section.data
  manifest : Manifest.decode plan.manifest.encode = .ok plan.manifest
  live : plan.manifest.generation = plan.generation
  stale : ∀ n ∈ plan.stale, isStale (some plan.generation) n = true

variable {plan : Plan} {fs : FileSystem}

theorem place_stagingPath (h : IsHidden plan.staging) :
    plan.stagingPath.place = plan.base.place ++ [plan.staging] :=
  Path.place_child plan.base h.isName

theorem place_temporaryPath (h : IsHidden plan.temporary) :
    plan.temporaryPath.place = plan.base.place ++ [plan.temporary] :=
  Path.place_child plan.base h.isName

namespace Fits

theorem ne_entry (h : plan.Fits before) :
    ∀ n ∈ plan.newNames, ∀ s : Section, n ≠ s.entry := by
  intro n hn s
  simp only [newNames, List.mem_cons, List.not_mem_nil, or_false] at hn
  rcases hn with rfl | rfl | rfl
  · exact h.staging.ne_entry s
  · exact name_ne_entry _ s
  · exact h.temporary.ne_entry s

theorem lookup_below (h : plan.Fits before) (tree : before.IsTree) {n : FileName}
    (hn : n ∈ plan.newNames) (q : Place) (hq : plan.base.place ++ [n] <+: q) :
    before.lookup q = none :=
  tree.lookup_below (h.vacant n hn) hq

end Fits

theorem extends_write (hplan : plan.Fits before) (tree : before.IsTree) {s : Section}
    (hs : s ∈ Section.data) (h : Extends plan.base.place [plan.staging] before fs)
    (content : Bytes) : Extends plan.base.place [plan.staging] before
      (fs.attempt (fs.writeFile (plan.stagingPath.child s.entry) content)).1 := by
  cases hwrite : fs.writeFile (plan.stagingPath.child s.entry) content with
  | error e => exact h
  | ok written =>
    obtain ⟨-, mode, hwritten⟩ := writeFile_ok hwrite
    rw [Path.place_child _ (isName_entry s), place_stagingPath hplan.staging, List.append_assoc]
      at hwritten
    show Extends _ _ _ written
    rw [hwritten]
    apply h.put (.inside _ List.mem_cons_self hs)
    exact hplan.lookup_below tree List.mem_cons_self _ ⟨[s.entry], List.append_assoc _ _ _⟩

theorem extends_fillStep (hplan : plan.Fits before) (tree : before.IsTree) (chance : Chance)
    (phase : Phase) : ∀ step ∈ plan.fillSteps, ∀ fs,
      Extends plan.base.place [plan.staging] before fs →
      Extends plan.base.place [plan.staging] before (chance.take phase fs step).1 := by
  intro step hstep fs h
  rcases List.mem_cons.mp hstep with rfl | hstep
  · refine Chance.take_of ?_ (fun _ => h) chance phase
    show Extends _ _ _ (fs.attempt (fs.makeDirectory plan.stagingPath)).1
    cases hmake : fs.makeDirectory plan.stagingPath with
    | error e => exact h
    | ok made =>
      obtain ⟨-, -, hmade⟩ := makeDirectory_ok hmake
      rw [place_stagingPath hplan.staging] at hmade
      show Extends _ _ _ made
      rw [hmade]
      exact h.put (.named _ List.mem_cons_self)
        (hplan.lookup_below tree List.mem_cons_self _ (List.prefix_refl _))
  · obtain ⟨⟨s, bytes⟩, hs, hstep⟩ := List.mem_flatMap.mp hstep
    have hdata : s ∈ Section.data := by
      rw [← hplan.sections]
      exact List.mem_map_of_mem hs
    have hwrite := extends_write hplan tree hdata h
    simp only [writeSteps, List.mem_cons, List.not_mem_nil, or_false] at hstep
    rcases hstep with rfl | rfl | rfl
    · exact Chance.take_of (hwrite []) (fun _ => h) chance phase
    · exact Chance.take_of (hwrite bytes) (fun _ => hwrite _) chance phase
    · exact Chance.take_of h (fun _ => h) chance phase

theorem extends_rename (hplan : plan.Fits before) (tree : before.IsTree)
    (h : Extends plan.base.place plan.newNames before fs) (chance : Chance) (phase : Phase) :
    Extends plan.base.place plan.newNames before
      (chance.take phase fs (.move plan.stagingPath (directory plan.base plan.generation))).1 := by
  have hname : name plan.generation ∈ plan.newNames := by simp [newNames]
  refine Chance.take_of ?_ (fun _ => h) chance phase
  show Extends _ _ _ (fs.attempt (fs.move plan.stagingPath _)).1
  cases hmove : fs.move plan.stagingPath (directory plan.base plan.generation) with
  | error e => exact h
  | ok moved =>
    show Extends _ _ _ moved
    rcases move_ok hmove with ⟨-, rfl⟩ | ⟨-, -, -, -, -, hmoved⟩
    · exact h
    · rw [place_stagingPath hplan.staging, Extends.place_directory] at hmoved
      rw [hmoved]
      exact h.carry (hplan.lookup_below tree List.mem_cons_self)
        (hplan.lookup_below tree hname) hname

theorem extends_draftStep (hplan : plan.Fits before) (tree : before.IsTree) (chance : Chance)
    (phase : Phase) : ∀ step ∈ plan.draftSteps, ∀ fs,
      Extends plan.base.place plan.newNames before fs →
      Extends plan.base.place plan.newNames before (chance.take phase fs step).1 := by
  intro step hstep fs h
  have hname : plan.temporary ∈ plan.newNames := by simp [newNames]
  have hput : ∀ entry, Extends plan.base.place plan.newNames before
      (fs.put plan.temporaryPath.place entry) := by
    intro entry
    rw [place_temporaryPath hplan.temporary]
    exact h.put (.named _ hname) (hplan.lookup_below tree hname _ (List.prefix_refl _))
  have hwrite : ∀ content, Extends plan.base.place plan.newNames before
      (fs.attempt (fs.writeFile plan.temporaryPath content)).1 := by
    intro content
    cases hwrite : fs.writeFile plan.temporaryPath content with
    | error e => exact h
    | ok written =>
      obtain ⟨-, mode, rfl⟩ := writeFile_ok hwrite
      exact hput _
  simp only [draftSteps, List.mem_cons, List.not_mem_nil, or_false] at hstep
  rcases hstep with rfl | rfl | rfl
  · refine Chance.take_of ?_ (fun _ => h) chance phase
    show Extends _ _ _ (fs.attempt (fs.createFile plan.temporaryPath)).1
    cases hcreate : fs.createFile plan.temporaryPath with
    | error e => exact h
    | ok created =>
      obtain ⟨-, rfl⟩ := createFile_ok hcreate
      exact hput _
  · exact Chance.take_of (hwrite _) (fun _ => hwrite _) chance phase
  · exact Chance.take_of h (fun _ => h) chance phase

/-! ## After a refusal -/

theorem extends_removeStaging (hplan : plan.Fits before) (tree : before.IsTree)
    {names : List FileName} (h : Extends plan.base.place names before fs) (chance : Chance)
    (phase : Phase) : Extends plan.base.place names before
      (chance.take phase fs (.removeTree plan.stagingPath)).1 := by
  refine Chance.take_of ?_ (fun _ => h) chance phase
  apply h.shrink
  intro q
  rcases lookup_removeTree fs plan.stagingPath q with hsame | ⟨hbelow, hnone⟩
  · exact Or.inl hsame
  · rw [place_stagingPath hplan.staging] at hbelow
    exact Or.inr ⟨hplan.lookup_below tree List.mem_cons_self q hbelow, hnone⟩

theorem extends_removeTemporary (hplan : plan.Fits before) (tree : before.IsTree)
    {names : List FileName} (h : Extends plan.base.place names before fs) (chance : Chance)
    (phase : Phase) : Extends plan.base.place names before
      (chance.take phase fs (.removeFile plan.temporaryPath)).1 := by
  refine Chance.take_of ?_ (fun _ => h) chance phase
  show Extends _ _ _ (fs.attempt (fs.removeFile plan.temporaryPath)).1
  cases hremove : fs.removeFile plan.temporaryPath with
  | error e => exact h
  | ok removed =>
    apply h.shrink
    intro q
    show removed.lookup q = _ ∨ _ ∧ removed.lookup q = none
    rw [(removeFile_ok hremove).2, lookup_dropTree, place_temporaryPath hplan.temporary]
    split_ifs with hbelow
    · have hname : plan.temporary ∈ plan.newNames := by simp [newNames]
      exact Or.inr ⟨hplan.lookup_below tree hname q (List.isPrefixOf_iff_prefix.mp hbelow), rfl⟩
    · exact Or.inl rfl

end Plan

end PluginRegistry.Cache
