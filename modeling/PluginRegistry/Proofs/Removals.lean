import PluginRegistry.Proofs.Traces
import PluginRegistry.Proofs.Trees

/-!
# Removals that are carried out

An entry of a directory is gone once its removal is not refused, unless the path of the directory
leads through what lies in the entry (`lookup_of_removeTree`), and a file whose removal finds
nothing is not there, unless the path steps back from a directory that is missing
(`lookup_of_removeFile_notFound`). The removal of several entries takes the directories among them
away and nothing else (`Chance.removed_takeEach`).
-/

namespace PluginRegistry

namespace FileSystem

variable {fs : FileSystem} {p : Path} {name : FileName}

/-! ## Computations that find something -/

theorem hasDirectory_congr {fs' : FileSystem} {place : Place}
    (h : fs'.lookup place = fs.lookup place) : fs'.HasDirectory place ↔ fs.HasDirectory place := by
  unfold HasDirectory
  rw [h]

theorem HasDirectory.lookup_ne_none {place : Place} (h : fs.HasDirectory place) :
    fs.lookup place ≠ none := by
  obtain ⟨mode, hmode⟩ := h
  rw [hmode]
  exact Option.some_ne_none _

theorem checkPath_ne_notFound (p : Path) : checkPath p ≠ .error .notFound := by
  unfold checkPath
  split_ifs <;> nofun

theorem checkWritable_ne_notFound (fs : FileSystem) (place : Place) :
    fs.checkWritable place ≠ .error .notFound := by
  unfold checkWritable
  split_ifs <;> nofun

theorem follow_ne_notFound {place : Place} (h : fs.lookup place ≠ none) (part : FileName) :
    fs.follow place part ≠ .error .notFound := by
  unfold follow
  cases hplace : fs.lookup place with
  | none => exact absurd hplace h
  | some entry =>
    cases entry with
    | file => nofun
    | directory mode =>
      dsimp only
      split_ifs <;> nofun

theorem foldlM_follow_ne_notFound {place : Place} {parts : List FileName}
    (h : ∀ v ∈ Path.passes place parts, fs.lookup v ≠ none) :
    parts.foldlM fs.follow place ≠ .error .notFound := by
  induction parts generalizing place with
  | nil => nofun
  | cons part parts ih =>
    rw [List.foldlM_cons]
    apply bind_ne_error (follow_ne_notFound (h place List.mem_cons_self) part)
    intro next hnext
    obtain ⟨-, rfl⟩ := follow_ok hnext
    exact ih fun v hv => h v (List.mem_cons_of_mem _ hv)

/-! ## The entry that a path asks for -/

theorem canEnter_of_resolve (hname : Path.IsName name) {place : Place}
    (h : fs.resolve (p.child name) = .ok place) : fs.CanEnter p := by
  rw [resolve_child fs p hname] at h
  obtain ⟨-, -, h⟩ := of_bind_ok h
  obtain ⟨parent, hparent, h⟩ := of_bind_ok h
  obtain ⟨-, rfl⟩ := foldlM_follow_ok hparent
  rw [Path.walk_directoryParts] at hparent h
  refine ⟨hparent, ?_⟩
  obtain ⟨⟨mode, hmode⟩, -⟩ := follow_ok h
  unfold follow at h ⊢
  rw [hmode] at h ⊢
  dsimp only at h ⊢
  rw [if_neg hname.1] at h
  have hsearch : mode.isSearchable = true := by
    by_contra hnot
    rw [if_pos (by simpa using hnot)] at h
    cases h
  rw [if_neg (by decide), if_neg (by simp [hsearch]), if_pos rfl]

theorem CanEnter.target (h : fs.CanEnter p) (hname : Path.IsName name)
    (hcheck : checkPath (p.child name) = .ok ()) :
    fs.target (p.child name) = .ok { parent := p.place, name, slash := false } := by
  unfold FileSystem.target
  rw [hcheck, Path.split?_child p hname]
  show (p.directoryParts.foldlM fs.follow [] >>= fun parent => _) = _
  rw [h.1]
  show (fs.follow p.place "." >>= fun _ => _) = _
  rw [h.2]
  rfl

theorem removeDirectory_ne_notFound (hname : Path.IsName name) {place : Place}
    (h : fs.resolve (p.child name) = .ok place)
    (hdirectory : fs.HasDirectory (p.place ++ [name])) :
    fs.removeDirectory (p.child name) ≠ .error .notFound := by
  have henter := canEnter_of_resolve hname h
  obtain ⟨mode, hmode⟩ := hdirectory
  unfold removeDirectory
  rw [henter.target hname (checkPath_of_resolve h)]
  show (if name = "." then _ else _) ≠ _
  rw [if_neg hname.2.1]
  show (if name = ".." then _ else _) ≠ _
  rw [if_neg hname.2.2]
  apply bind_ne_error (follow_ne_notFound (henter.hasDirectory (.inr rfl)).lookup_ne_none name)
  intro place hplace
  obtain ⟨-, rfl⟩ := follow_ok hplace
  rw [Path.step_name _ hname, hmode]
  apply bind_ne_error (checkWritable_ne_notFound fs _)
  intro _ _
  dsimp only
  split_ifs <;> nofun

/-! ## Removing one entry -/

theorem removeTree_of_not_directory (h : ¬ fs.HasDirectory p.place) : (fs.removeTree p).1 = fs := by
  unfold removeTree
  cases hopen : fs.openDirectory p with
  | error e => rfl
  | ok place =>
    obtain ⟨hresolve, hdirectory⟩ := openDirectory_ok hopen
    obtain ⟨-, rfl⟩ := resolve_ok hresolve
    exact absurd hdirectory h

/-- A removal that is not refused first empties the directory that the path leads to. -/
theorem removeTree_ok {fs' : FileSystem} (h : fs.removeTree p = (fs', .ok ())) :
    fs.resolve p = .ok p.place ∧ fs.HasDirectory p.place ∧
      ((fs.dropBelow p.place).removeDirectory p = .ok fs' ∨
        (fs.dropBelow p.place).removeDirectory p = .error .notFound) := by
  unfold removeTree at h
  cases hopen : fs.openDirectory p with
  | error e =>
    rw [hopen] at h
    cases h
  | ok place =>
    rw [hopen] at h
    obtain ⟨hresolve, hdirectory⟩ := openDirectory_ok hopen
    obtain ⟨-, rfl⟩ := resolve_ok hresolve
    refine ⟨hresolve, hdirectory, ?_⟩
    dsimp only at h
    rw [if_pos (by_contra fun hnot => by rw [if_neg hnot] at h; cases h)] at h
    cases hremove : (fs.dropBelow p.place).removeDirectory p with
    | error e =>
      rw [hremove] at h
      cases e <;> first | exact .inr rfl | cases h
    | ok changed =>
      rw [hremove] at h
      cases h
      exact .inl rfl

theorem not_below_self {place : Place} : ¬ place ++ [name] <+: place := by
  intro h
  have hlength := h.length_le
  rw [List.length_append, List.length_singleton] at hlength
  omega

/-- An entry is gone with all it holds once its removal is not refused. The path of its directory
may lead through the entry but not through what lies in it. -/
theorem lookup_of_removeTree {fs' : FileSystem} (hname : Path.IsName name)
    (hway : ∀ v ∈ p.passed, p.place ++ [name] <+: v → v = p.place ++ [name])
    (h : fs.removeTree (p.child name) = (fs', .ok ())) {q : Place} (hq : p.place ++ [name] <+: q) :
    fs'.lookup q = none := by
  obtain ⟨hresolve, hdirectory, hremove⟩ := removeTree_ok h
  rw [Path.place_child p hname] at hresolve hdirectory hremove
  -- what is dropped first lies in the entry, so the path still leads to it
  have hkept : ∀ v, (p.place ++ [name] <+: v → v = p.place ++ [name]) →
      (fs.dropBelow (p.place ++ [name])).lookup v = fs.lookup v := by
    intro v hv
    rw [lookup_dropBelow, if_neg]
    simpa using hv
  have hemptied : (fs.dropBelow (p.place ++ [name])).resolve (p.child name) =
      .ok (p.place ++ [name]) := by
    rw [← hresolve]
    apply resolve_congr
    intro v hv
    apply hkept
    rcases Path.mem_passed_child.mp hv with hv | rfl
    · exact hway v hv
    · exact fun hbelow => absurd hbelow not_below_self
  have hstill : (fs.dropBelow (p.place ++ [name])).HasDirectory (p.place ++ [name]) :=
    (hasDirectory_congr (hkept _ fun _ => rfl)).mpr hdirectory
  have hgone := hremove.resolve_right (removeDirectory_ne_notFound hname hemptied hstill)
  rw [removeDirectory_ok hgone, lookup_dropTree, Path.place_child p hname, if_pos]
  exact List.isPrefixOf_iff_prefix.mpr hq

theorem target_ne_notFound (hname : Path.IsName name)
    (h : ∀ v, v ∈ p.passed ∨ v = p.place → fs.lookup v ≠ none) :
    fs.target (p.child name) ≠ .error .notFound := by
  unfold target
  rw [Path.split?_child p hname]
  apply bind_ne_error (checkPath_ne_notFound _)
  intro _ _
  apply bind_ne_error (foldlM_follow_ne_notFound fun v hv =>
    h v (.inl (Path.passes_directoryParts_subset p hv)))
  intro parent hparent
  obtain ⟨-, rfl⟩ := foldlM_follow_ok hparent
  rw [Path.walk_directoryParts]
  apply bind_ne_error (follow_ne_notFound (h _ (.inr rfl)) ".")
  rintro _ _ ⟨⟩

theorem lookup_of_removeFile_notFound (tree : fs.IsTree) (hname : Path.IsName name)
    (hleft : ∀ v ∈ p.left, fs.lookup v ≠ none)
    (h : fs.removeFile (p.child name) = .error .notFound) :
    fs.lookup (p.place ++ [name]) = none := by
  by_contra hthere
  obtain ⟨entry, hentry⟩ := Option.ne_none_iff_exists'.mp hthere
  have hway : ∀ v, v ∈ p.passed ∨ v = p.place → fs.lookup v ≠ none := by
    intro v hv
    by_cases hmem : v ∈ p.left
    · exact hleft v hmem
    · have habove : v <+: p.place := by
        rcases hv with hv | rfl
        · exact Path.prefix_of_passed hv hmem
        · exact List.prefix_refl _
      exact (tree.hasDirectory hentry (habove.trans (List.prefix_append _ _))
        fun heq => not_below_self (heq ▸ habove)).lookup_ne_none
  revert h
  unfold removeFile
  apply bind_ne_error (target_ne_notFound hname hway)
  intro t ht
  rw [(canEnter_of_target hname ht).target hname (target_ok ht).1] at ht
  cases ht
  rw [if_neg (by simp [Target.isDots, hname.2.1, hname.2.2])]
  apply bind_ne_error (follow_ne_notFound (hway _ (.inr rfl)) name)
  intro place hplace
  obtain ⟨-, rfl⟩ := follow_ok hplace
  rw [Path.step_name _ hname, hentry]
  cases entry <;>
  · apply bind_ne_error (checkWritable_ne_notFound fs _)
    rintro _ _ ⟨⟩

end FileSystem

/-! ## Removing several entries -/

namespace Cache

open FileSystem

variable {base : Path} {names : List FileName} {before after : FileSystem}
  {refused : List (Path × FileError)}

/-- What is left of a directory once the entries with some names were to be removed. -/
structure Removed (base : Path) (names : List FileName) (before after : FileSystem)
    (refused : List (Path × FileError)) : Prop where
  within (q : Place) : after.lookup q = before.lookup q ∨
    (∃ n ∈ names, base.place ++ [n] <+: q) ∧ after.lookup q = none
  kept {n : FileName} : ¬ before.HasDirectory (base.place ++ [n]) → ∀ q, base.place ++ [n] <+: q →
    after.lookup q = before.lookup q
  gone {n : FileName} : n ∈ names → (∀ reason, (base.child n, reason) ∉ refused) →
    ∀ q, base.place ++ [n] <+: q → after.lookup q = none

theorem name_eq_of_below {place q : Place} {n m : FileName} (hn : place ++ [n] <+: q)
    (hm : place ++ [m] <+: q) : n = m := by
  have heq := (List.prefix_of_prefix_length_le hn hm (by simp)).eq_of_length (by simp)
  exact (List.cons.inj (List.append_cancel_left heq)).1

namespace Chance

theorem takeEach_cons (chance : Chance) (phase : Phase) (files : FileSystem) (step : FileStep)
    (steps : List FileStep) :
    (chance.takeEach phase files (step :: steps)).1 =
        (chance.takeEach phase (chance.take phase files step).1 steps).1 ∧
      (chance.takeEach phase (chance.take phase files step).1 steps).2 ⊆
        (chance.takeEach phase files (step :: steps)).2 ∧
      ∀ reason, (chance.take phase files step).2 = .error reason →
        (step.subject, reason) ∈ (chance.takeEach phase files (step :: steps)).2 := by
  rw [takeEach]
  rcases chance.take phase files step with ⟨next, e | u⟩
  · exact ⟨rfl, List.subset_cons_self _ _, fun reason h => by cases h; exact List.mem_cons_self⟩
  · exact ⟨rfl, List.Subset.refl _, nofun⟩

theorem take_removeTree (chance : Chance) (phase : Phase) (files : FileSystem) (p : Path) :
    (chance.take phase files (.removeTree p)).1 = (files.removeTree p).1 ∨
      (chance.take phase files (.removeTree p)).1 = files :=
  take_of (P := fun next => next = (files.removeTree p).1 ∨ next = files) (.inl rfl)
    (fun _ => .inr rfl) chance phase

theorem removed_takeEach (chance : Chance) (phase : Phase) (hnames : ∀ n ∈ names, Path.IsName n)
    (hway : ∀ n ∈ names, ∀ v ∈ base.passed, base.place ++ [n] <+: v → v = base.place ++ [n])
    (before : FileSystem) : Removed base names before
      (chance.takeEach phase before (names.map fun n => .removeTree (base.child n))).1
      (chance.takeEach phase before (names.map fun n => .removeTree (base.child n))).2 := by
  induction names generalizing before with
  | nil => exact ⟨fun _ => .inl rfl, fun _ _ _ => rfl, nofun⟩
  | cons n names ih =>
    obtain ⟨hlast, hsubset, hrefused⟩ := chance.takeEach_cons phase before
      (.removeTree (base.child n)) (names.map fun n => .removeTree (base.child n))
    have hplace := Path.place_child base (hnames n List.mem_cons_self)
    have htaken := chance.take_removeTree phase before (base.child n)
    have hok {next : FileSystem} {u : Unit} := @of_take_ok chance phase before next
      (.removeTree (base.child n)) u
    have hrest := ih (fun m hm => hnames m (List.mem_cons_of_mem n hm))
      (fun m hm => hway m (List.mem_cons_of_mem n hm))
      (chance.take phase before (.removeTree (base.child n))).1
    rw [List.map_cons, hlast]
    generalize hnext : chance.take phase before (.removeTree (base.child n)) = next
      at htaken hok hrest hrefused hsubset
    have hfirst : ∀ q, next.1.lookup q = before.lookup q ∨
        base.place ++ [n] <+: q ∧ next.1.lookup q = none := by
      intro q
      rcases htaken with heq | heq <;> rw [heq]
      · exact hplace ▸ lookup_removeTree before (base.child n) q
      · exact .inl rfl
    refine ⟨fun q => ?_, fun {m} hm q hq => ?_, fun {m} hm hkept q hq => ?_⟩
    · rcases hrest.within q with hsame | ⟨⟨m, hm, hbelow⟩, hnone⟩
      · rw [hsame]
        exact (hfirst q).imp_right fun ⟨hbelow, hnone⟩ => ⟨⟨n, List.mem_cons_self, hbelow⟩, hnone⟩
      · exact .inr ⟨⟨m, List.mem_cons_of_mem n hm, hbelow⟩, hnone⟩
    · have hnot : ¬ next.1.HasDirectory (base.place ++ [m]) := by
        rintro ⟨mode, hmode⟩
        rcases hfirst (base.place ++ [m]) with hsame | ⟨-, hnone⟩
        · exact hm ⟨mode, hsame ▸ hmode⟩
        · exact nomatch hnone.symm.trans hmode
      rw [hrest.kept hnot q hq]
      rcases hfirst q with hsame | ⟨hbelow, -⟩
      · exact hsame
      · obtain rfl := name_eq_of_below hbelow hq
        rcases htaken with heq | heq <;> rw [heq]
        exact congrArg (lookup · q) (removeTree_of_not_directory (hplace ▸ hm))
    · rcases List.mem_cons.mp hm with rfl | hm
      · have hnone : next.1.lookup q = none := by
          obtain ⟨files, reason | u⟩ := next
          · exact absurd (hrefused reason rfl) (hkept reason)
          · exact lookup_of_removeTree (hnames m List.mem_cons_self)
              (hway m List.mem_cons_self) (hok rfl) hq
        rcases hrest.within q with hsame | ⟨-, hgone⟩
        · rw [hsame, hnone]
        · exact hgone
      · exact hrest.gone hm (fun reason hmem => hkept reason (hsubset hmem)) q hq

end Chance

end Cache

end PluginRegistry
