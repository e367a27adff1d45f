import Mathlib.Data.Nat.Digits.Defs
import PluginRegistry.Proofs.Preparations

/-!
# Publications that are carried out

When no step of a plan is refused, its manifest and the sections of its generation stand in the
directory (`Plan.published_of_publish`), and what was there already still leads there. So a
location that an image was stored in loads that image, and under another fingerprint nothing
(`Location.load_of_store`). No step relies on the generation being new: where an empty directory
had its name, that one is replaced.
-/

namespace PluginRegistry.Cache

open FileSystem Generation

/-! ## Steps that are taken -/

namespace Chance

variable {chance : Chance} {phase : Phase} {fs last : FileSystem}

theorem takeEach_invariant {P : FileSystem → Prop} {steps : List FileStep}
    (hstep : ∀ step ∈ steps, ∀ files, P files → P (chance.take phase files step).1) (h : P fs) :
    P (chance.takeEach phase fs steps).1 :=
  traceEach_invariant hstep h _ (chance.takeEach_mem_trace phase fs steps)

theorem lookup_of_writeSteps {p : Path} {content : Bytes}
    (h : chance.takeAll phase fs (Plan.writeSteps p content) = (last, .ok ()))
    (hnew : fs.lookup p.place = none) (q : Place) :
    last.lookup q = if q = p.place then some (.file content .ofFile) else fs.lookup q := by
  obtain ⟨created, hcreate, h⟩ := of_takeAll_cons h
  obtain ⟨written, hwrite, h⟩ := of_takeAll_cons h
  obtain ⟨synced, hsync, h⟩ := of_takeAll_cons h
  cases h
  cases hsync
  have hcreated := writeFile_new (of_attempt_ok hcreate) hnew
  have hempty : created.lookup p.place = some (.file [] .ofFile) := by
    rw [hcreated, lookup_put, if_pos rfl]
  rw [writeFile_old (of_attempt_ok hwrite) hempty, lookup_put, hcreated, lookup_put]
  split_ifs <;> rfl

theorem lookup_of_writes {dir : Path} {items : List (Section × Bytes)}
    (h : chance.takeAll phase fs
      (items.flatMap fun (s, bytes) => Plan.writeSteps (dir.child s.entry) bytes) =
        (last, .ok ()))
    (hnodup : (items.map Prod.fst).Nodup)
    (hnew : ∀ item ∈ items, fs.lookup (dir.place ++ [item.1.entry]) = none) :
    (∀ q, (∀ item ∈ items, q ≠ dir.place ++ [item.1.entry]) → last.lookup q = fs.lookup q) ∧
      ∀ item ∈ items, last.lookup (dir.place ++ [item.1.entry]) =
        some (.file item.2 .ofFile) := by
  induction items generalizing fs with
  | nil =>
    cases h
    exact ⟨fun _ _ => rfl, fun _ hmem => absurd hmem List.not_mem_nil⟩
  | cons item items ih =>
    obtain ⟨s, bytes⟩ := item
    rw [List.flatMap_cons] at h
    obtain ⟨next, hrun, hrest⟩ := of_takeAll_append h
    obtain ⟨hs, hnodup⟩ := List.nodup_cons.mp hnodup
    have hplace := Path.place_child dir (isName_entry s)
    have hwritten := lookup_of_writeSteps hrun (hplace ▸ hnew (s, bytes) List.mem_cons_self)
    rw [hplace] at hwritten
    have hother : ∀ item ∈ items,
        dir.place ++ [item.1.entry] ≠ dir.place ++ [s.entry] := by
      intro item hitem heq
      have hname := (List.cons.inj (List.append_cancel_left heq)).1
      exact hs (List.mem_map.mpr ⟨item, hitem, Section.entry_inj hname⟩)
    obtain ⟨hframe, hitems⟩ := ih hrest hnodup fun item hitem => by
      rw [hwritten, if_neg (hother item hitem)]
      exact hnew item (List.mem_cons_of_mem _ hitem)
    constructor
    · intro q hq
      rw [hframe q fun item hitem => hq item (List.mem_cons_of_mem _ hitem), hwritten,
        if_neg (hq (s, bytes) List.mem_cons_self)]
    · intro item hitem
      rcases List.mem_cons.mp hitem with rfl | hitem
      · rw [hframe _ fun item hitem => (hother item hitem).symm, hwritten, if_pos rfl]
      · exact hitems item hitem

end Chance

/-! ## Plans that last -/

/-- What a plan relies on to be carried out: the names it writes under first are new, and its
sections are those of an image. -/
structure Plan.Ready (plan : Plan) (fs : FileSystem) : Prop where
  tree : fs.IsTree
  staging : IsHidden plan.staging
  temporary : IsHidden plan.temporary
  vacant : ∀ n, n = plan.staging ∨ n = plan.temporary →
    fs.lookup (plan.base.place ++ [n]) = none
  sections : plan.sections.map Prod.fst = Section.data

/-- What a plan relies on to be found again: nothing that is left over lies on the way to its
directory. -/
structure Plan.Lasts (plan : Plan) (fs : FileSystem) : Prop extends plan.Ready fs where
  long : (FileName.ofText stagingStem).size ≤ plan.staging.size
  stale : ∀ n ∈ plan.stale, isStale (some plan.generation) n = true
  kept : ∀ v ∈ plan.base.left, ∀ n, plan.base.place ++ [n] <+: v → isStale none n = false

theorem Plan.Fits.ready {plan : Plan} {fs : FileSystem} (h : plan.Fits fs) (tree : fs.IsTree) :
    plan.Ready fs where
  tree := tree
  staging := h.staging
  temporary := h.temporary
  vacant n hn := h.vacant n (by rcases hn with rfl | rfl <;> simp [newNames])
  sections := h.sections

theorem Plan.lasts_make {digest : DigestFunction} {chance : Chance} {fs : FileSystem} {base : Path}
    {names : List FileName} {image : Image} (tree : fs.IsTree)
    (hread : fs.readDirectory base = .ok names)
    (hkept : ∀ v ∈ base.left, ∀ n, base.place ++ [n] <+: v → isStale none n = false)
    (hsections : image.sections.map Prod.fst = Section.data) :
    (Plan.make digest chance fs base names image).Lasts fs where
  tree := tree
  staging := isHidden_staging chance names
  long := chance.size_name _ names
  temporary := isHidden_temporary chance names
  vacant n hn := by
    apply lookup_of_not_mem hread
    rcases hn with rfl | rfl <;> exact chance.name_not_mem _ names
  sections := hsections
  stale n hn := (List.mem_filter.mp hn).2
  kept := hkept

theorem isStale_none_name (generation : UInt64) : isStale none (name generation) = true := by
  simp [isStale, ofName?_name]

theorem prefix_entry_iff {place rest : Place} {n m : FileName} :
    place ++ [n] <+: place ++ m :: rest ↔ n = m := by
  rw [List.prefix_append_right_inj, List.cons_prefix_cons]
  simp

namespace Plan

variable {plan : Plan} {fs filled staged created committed : FileSystem} {chance : Chance}
  {phase : Phase}

/-- The directory of the generation is in place with its sections and nothing else in it. -/
structure InPlace (plan : Plan) (fs : FileSystem) : Prop where
  directory : fs.lookup (plan.base.place ++ [name plan.generation]) =
    some (.directory .ofDirectory)
  sections : ∀ item ∈ plan.sections,
    fs.lookup (plan.base.place ++ [name plan.generation, item.1.entry]) =
      some (.file item.2 .ofFile)
  only : ∀ rest, fs.lookup (plan.base.place ++ name plan.generation :: rest) ≠ none →
    rest = [] ∨ ∃ item ∈ plan.sections, rest = [item.1.entry]

theorem InPlace.congr (h : plan.InPlace fs) {after : FileSystem}
    (hsame : ∀ rest, after.lookup (plan.base.place ++ name plan.generation :: rest) =
      fs.lookup (plan.base.place ++ name plan.generation :: rest)) : plan.InPlace after where
  directory := (hsame []).trans h.directory
  sections item hitem := (hsame [item.1.entry]).trans (h.sections item hitem)
  only rest hrest := h.only rest (hsame rest ▸ hrest)

/-- The way to the directory does not lead through the generation that the plan puts there. -/
theorem Lasts.apart (h : plan.Lasts fs) {v : Place}
    (hv : v ∈ plan.base.passed ∨ v = plan.base.place) :
    ¬ plan.base.place ++ [name plan.generation] <+: v := by
  intro hbelow
  have hleft := h.kept v (Path.left_of_below hv hbelow) _ hbelow
  rw [isStale_none_name] at hleft
  cases hleft

/-- The staging directory has all sections in it and nothing else, and nothing beside it has
changed. -/
theorem lookup_of_fill (h : plan.Ready fs)
    (hfill : chance.takeAll phase fs plan.fillSteps = (filled, .ok ())) :
    filled.lookup (plan.base.place ++ [plan.staging]) = some (.directory .ofDirectory) ∧
      (∀ item ∈ plan.sections, filled.lookup (plan.base.place ++ [plan.staging, item.1.entry]) =
        some (.file item.2 .ofFile)) ∧
      (∀ rest, filled.lookup (plan.base.place ++ plan.staging :: rest) ≠ none →
        rest = [] ∨ ∃ item ∈ plan.sections, rest = [item.1.entry]) ∧
      ∀ q, ¬ plan.base.place ++ [plan.staging] <+: q → filled.lookup q = fs.lookup q := by
  obtain ⟨made, hmake, hwrites⟩ := Chance.of_takeAll_cons hfill
  obtain ⟨-, -, hmade⟩ := makeDirectory_ok (of_attempt_ok hmake)
  have hplace := place_stagingPath h.staging
  rw [show (plan.base.child plan.staging).place = _ from hplace] at hmade
  have hinside : ∀ s : Section, plan.stagingPath.place ++ [s.entry] =
      plan.base.place ++ [plan.staging, s.entry] := by
    intro s
    rw [hplace, List.append_assoc]
    rfl
  have hne : ∀ s : Section, plan.base.place ++ [plan.staging, s.entry] ≠
      plan.base.place ++ [plan.staging] := by
    intro s heq
    cases List.append_cancel_left heq
  have hempty : ∀ rest, fs.lookup (plan.base.place ++ plan.staging :: rest) = none := fun rest =>
    h.tree.lookup_below (h.vacant _ (.inl rfl)) (prefix_entry_iff.mpr rfl)
  obtain ⟨hframe, hitems⟩ := Chance.lookup_of_writes hwrites
    (by rw [h.sections]; decide) fun item _ => by
      rw [hinside, hmade, lookup_put, if_neg (hne item.1)]
      exact hempty [item.1.entry]
  simp only [hinside] at hframe hitems
  refine ⟨?_, hitems, ?_, ?_⟩
  · rw [hframe _ fun item _ => (hne item.1).symm, hmade, lookup_put, if_pos rfl]
  · intro rest hrest
    by_contra hnot
    obtain ⟨hnil, hnone⟩ := not_or.mp hnot
    apply hrest
    rw [hframe, hmade, lookup_put, if_neg, hempty]
    · exact fun heq => hnil (List.cons.inj (List.append_cancel_left heq)).2
    · intro item hitem heq
      exact hnone ⟨item, hitem, (List.cons.inj (List.append_cancel_left heq)).2⟩
  · intro q hq
    rw [hframe, hmade, lookup_put, if_neg]
    · rintro rfl
      exact hq (List.prefix_refl _)
    · rintro item - rfl
      exact hq (prefix_entry_iff.mpr rfl)

theorem lookup_of_stage (h : plan.Ready fs)
    (hstage : chance.takeAll .stage fs plan.stageSteps = (staged, .ok ())) :
    plan.InPlace staged ∧
      ∀ q, ¬ plan.base.place ++ [name plan.generation] <+: q →
        staged.lookup q = fs.lookup q := by
  obtain ⟨filled, hfill, hrest⟩ := Chance.of_takeAll_append hstage
  obtain ⟨synced, hsync, hrest⟩ := Chance.of_takeAll_cons hrest
  obtain ⟨rfl, -⟩ := Prod.ext_iff.1 hsync
  obtain ⟨moved, hrun, hdone⟩ := Chance.of_takeAll_cons hrest
  cases hdone
  obtain ⟨hdirectory, hitems, honly, hframe⟩ := lookup_of_fill h hfill
  have hplace := place_stagingPath h.staging
  have hname : plan.staging ≠ name plan.generation := h.staging.ne_name _
  have hcarry : staged = filled.carry (plan.base.place ++ [plan.staging])
      (plan.base.place ++ [name plan.generation]) := by
    rcases move_ok (of_attempt_ok hrun) with ⟨hsame, -⟩ | ⟨-, -, -, -, -, hmoved⟩
    · rw [hplace, Extends.place_directory] at hsame
      exact absurd (List.cons.inj (List.append_cancel_left hsame)).1 hname
    · rwa [hplace, Extends.place_directory] at hmoved
  have hinside : ∀ rest, staged.lookup (plan.base.place ++ name plan.generation :: rest) =
      filled.lookup (plan.base.place ++ plan.staging :: rest) := by
    intro rest
    rw [hcarry, lookup_carry, if_pos (prefix_entry_iff.mpr rfl), List.append_cons _ _ rest,
      List.drop_left, ← List.append_cons]
  refine ⟨⟨(hinside []).trans hdirectory, fun item hitem =>
    (hinside [item.1.entry]).trans (hitems item hitem),
    fun rest hrest => honly rest (hinside rest ▸ hrest)⟩, ?_⟩
  intro q hq
  rw [hcarry, lookup_carry, if_neg hq]
  split_ifs with hstaging
  · exact (h.tree.lookup_below (h.vacant _ (.inl rfl)) hstaging).symm
  · exact hframe q hstaging

/-! ## Plans that were carried out -/

/-- A reader finds the manifest of a plan and all sections of its generation. -/
structure Published (plan : Plan) (fs : FileSystem) : Prop extends plan.InPlace fs where
  enter : fs.CanEnter plan.base
  short : checkPath (manifestPath plan.base) = .ok ()
  manifest : fs.lookup (manifestPath plan.base).place =
    some (.file plan.manifest.encode .ofPrivate)

theorem frame_of_draftSteps (h : plan.Ready fs)
    (hdraft : chance.takeAll phase staged plan.draftSteps = (created, .ok ())) {q : Place}
    (hq : ¬ plan.base.place ++ [plan.temporary] <+: q) :
    created.lookup q = staged.lookup q := by
  obtain ⟨empty, hcreate, hdraft⟩ := Chance.of_takeAll_cons hdraft
  obtain ⟨written, hwrite, hdraft⟩ := Chance.of_takeAll_cons hdraft
  obtain ⟨synced, hsync, hdraft⟩ := Chance.of_takeAll_cons hdraft
  cases hdraft
  cases hsync
  obtain ⟨-, hempty⟩ := createFile_ok (p := plan.temporaryPath) (of_attempt_ok hcreate)
  obtain ⟨-, mode, hwritten⟩ := writeFile_ok (of_attempt_ok hwrite)
  have hne : q ≠ plan.temporaryPath.place := by
    rintro rfl
    exact hq (place_temporaryPath h.temporary ▸ List.prefix_refl _)
  rw [hwritten, lookup_put, if_neg hne, hempty, lookup_put, if_neg hne]

/-- The manifest has got its name in place of a file or of nothing, and beside it and the
generation nothing has changed. -/
theorem lookup_after_commit (h : plan.Ready fs)
    (hstage : chance.takeAll .stage fs plan.stageSteps = (staged, .ok ()))
    (hcommit : chance.takeAll .commit staged plan.commitSteps = (committed, .ok ())) :
    committed.lookup (plan.base.place ++ [Section.manifest.entry]) =
        some (.file plan.manifest.encode .ofPrivate) ∧
      plan.InPlace committed ∧
      ¬ fs.HasDirectory (plan.base.place ++ [Section.manifest.entry]) ∧
      ∀ q, ¬ plan.base.place ++ [name plan.generation] <+: q →
        ¬ plan.base.place ++ [Section.manifest.entry] <+: q →
          committed.lookup q = fs.lookup q := by
  obtain ⟨hinPlace, hframe⟩ := lookup_of_stage h hstage
  obtain ⟨created, hdraft, hmove⟩ := Chance.of_takeAll_append hcommit
  obtain ⟨moved, hmove, hdone⟩ := Chance.of_takeAll_cons hmove
  cases hdone
  have htemporary := place_temporaryPath h.temporary
  have hvacant := fun q (hq : plan.base.place ++ [plan.temporary] <+: q) =>
    h.tree.lookup_below (h.vacant _ (.inr rfl)) hq
  have hcreated := lookup_of_draftSteps hdraft
  have hmoved := move_ok (of_attempt_ok hmove)
  rw [htemporary, place_manifest] at hmoved
  rw [htemporary] at hcreated
  have hname : plan.temporary ≠ Section.manifest.entry := h.temporary.ne_entry .manifest
  have hbeside : ∀ q, ¬ plan.base.place ++ [plan.temporary] <+: q →
      created.lookup q = staged.lookup q := fun q hq => frame_of_draftSteps h hdraft hq
  rcases hmoved with ⟨hsame, -⟩ | ⟨entry, hentry, -, -, hkind, hmoved⟩
  · exact absurd (List.cons.inj (List.append_cancel_left hsame)).1 hname
  refine ⟨?_, hinPlace.congr fun rest => ?_, ?_, fun q hgeneration hmanifest => ?_⟩
  · rw [hmoved, lookup_carry, if_pos (List.prefix_refl _), List.drop_length, List.append_nil,
      hcreated]
  · have hother : ¬ plan.base.place ++ [plan.temporary] <+:
        plan.base.place ++ name plan.generation :: rest :=
      fun hpre => h.temporary.ne_name _ (prefix_entry_iff.mp hpre)
    rw [hmoved, lookup_carry, if_neg fun hpre =>
      name_ne_entry _ _ (prefix_entry_iff.mp hpre).symm, if_neg hother, hbeside _ hother]
  · rintro ⟨mode, hmode⟩
    -- a file takes the place of a file only
    rw [hcreated] at hentry
    cases hentry
    have hthere : created.lookup (plan.base.place ++ [Section.manifest.entry]) =
        some (.directory mode) := by
      rw [hbeside _ fun hpre => hname (prefix_entry_iff.mp hpre),
        hframe _ fun hpre => name_ne_entry _ _ (prefix_entry_iff.mp hpre), hmode]
    cases hkind _ hthere
  · rw [hmoved, lookup_carry, if_neg hmanifest]
    split_ifs with htemp
    · exact (hvacant q htemp).symm
    · rw [hbeside q htemp, hframe q hgeneration]

theorem published_of_commit (h : plan.Lasts fs)
    (hstage : chance.takeAll .stage fs plan.stageSteps = (staged, .ok ()))
    (hcommit : chance.takeAll .commit staged plan.commitSteps = (committed, .ok ())) :
    plan.Published committed := by
  obtain ⟨last, hfill⟩ := fill_of_stageSteps hstage
  have hfilled := filled_of_fill h.staging h.long h.sections hfill
  obtain ⟨hmanifest, hinPlace, hfile, hframe⟩ := lookup_after_commit h.toReady hstage hcommit
  have hway : ∀ v, v ∈ plan.base.passed ∨ v = plan.base.place →
      committed.lookup v = fs.lookup v := by
    intro v hv
    refine hframe v (h.apart hv) fun hbelow => ?_
    obtain ⟨mode, hmode⟩ := hfilled.enter.hasDirectory hv
    by_cases heq : plan.base.place ++ [Section.manifest.entry] = v
    · exact hfile (heq ▸ ⟨mode, hmode⟩)
    · exact hfile (h.tree.hasDirectory hmode hbelow heq)
  exact
    { toInPlace := hinPlace
      enter := hfilled.enter.congr (fun v hv => hway v (.inl hv)) (hway _ (.inr rfl))
      short := hfilled.short
      manifest := by rw [place_manifest, hmanifest] }

theorem Published.kept (hpublished : plan.Published fs) (h : plan.Lasts staged)
    {after : FileSystem} (hkept : plan.Kept fs after) : plan.Published after where
  toInPlace := hpublished.toInPlace.congr fun rest =>
    hkept.lookup_entry h.stale (isStale_name plan.generation) rest
  enter := hpublished.enter.congr (fun v hv => hkept.lookup_way h.stale h.kept (.inl hv))
    (hkept.lookup_way h.stale h.kept (.inr rfl))
  short := hpublished.short
  manifest := by
    rw [← hpublished.manifest, place_manifest]
    exact hkept.lookup_entry h.stale (isStale_manifest _) []

/-- A publication that is not refused has taken all its steps up to the removal of what is left
over. -/
theorem of_publish_ok {generation : UInt64}
    (hok : (plan.publish chance fs).result = .ok generation) :
    plan.generation = generation ∧ ∃ staged committed,
      chance.takeAll .stage fs plan.stageSteps = (staged, .ok ()) ∧
      chance.takeAll .commit staged plan.commitSteps = (committed, .ok ()) ∧
      (plan.publish chance fs).files =
        (chance.takeEach .clean committed plan.cleanSteps).1 ∧
      (plan.publish chance fs).refused =
        (chance.takeEach .clean committed plan.cleanSteps).2 := by
  unfold Plan.publish at hok ⊢
  generalize hstage : plan.stage chance fs = done at hok ⊢
  obtain ⟨staged, e | ⟨⟨⟩⟩⟩ := done
  · cases hok
  dsimp only at hok ⊢
  generalize hcommit : plan.commit chance staged = done at hok ⊢
  obtain ⟨committed, e | ⟨⟨⟩⟩⟩ := done
  · cases hok
  exact ⟨Except.ok.inj hok, staged, committed, (Chance.of_takeOrUndo_ok hstage).1,
    (Chance.of_takeOrUndo_ok hcommit).1, rfl, rfl⟩

theorem published_of_publish (h : plan.Lasts fs) {generation : UInt64}
    (hok : (plan.publish chance fs).result = .ok generation) :
    plan.Published (plan.publish chance fs).files := by
  obtain ⟨-, staged, committed, hstage, hcommit, hfiles, -⟩ := of_publish_ok hok
  rw [hfiles]
  apply (published_of_commit h hstage hcommit).kept h
  exact Chance.takeEach_invariant (kept_cleanStep h.stale committed chance .clean) fun _ _ => rfl

end Plan

/-! ## Reading a generation -/

theorem size_ofList_le (cs : List Char) :
    (String.ofList cs).utf8ByteSize ≤ 4 * cs.length := by
  induction cs with
  | nil => simp
  | cons c cs ih =>
    have hcons : String.ofList (c :: cs) = String.singleton c ++ String.ofList cs := by
      rw [← String.toList_inj]
      simp
    have hc := c.utf8Size_le_four
    rw [hcons, String.utf8ByteSize_append, String.utf8ByteSize_singleton, List.length_cons]
    omega

theorem Generation.size_name_le (generation : UInt64) :
    (name generation).size ≤ 255 := by
  have hdigits : (Nat.toDigits 10 generation.toNat).length ≤ 20 :=
    Nat.toDigits_length _ _ _ (by decide) (generation.toNat_lt.trans (by decide))
  have hsize := size_ofList_le (Nat.toDigits 10 generation.toNat)
  have hstem : nameStem.utf8ByteSize = 4 := by decide
  unfold name
  rw [FileName.size_ofText, String.utf8ByteSize_append, Nat.toString_eq_ofList_toDigits, hstem]
  omega

theorem mapM_ok {α β : Type} {f : α → Except Error (α × β)} {items : List (α × β)}
    (h : ∀ item ∈ items, f item.1 = .ok item) : (items.map Prod.fst).mapM f = .ok items := by
  induction items with
  | nil => rfl
  | cons item items ih =>
    rw [List.map_cons, List.mapM_cons, h item List.mem_cons_self,
      ih fun other hother => h other (List.mem_cons_of_mem item hother)]
    rfl

section

variable {digest : DigestFunction} {chance : Chance} {image : Image} {fs : FileSystem}
  {base : Path}

theorem Image.bytes?_of_mem (hnodup : (image.sections.map Prod.fst).Nodup)
    {item : Section × Bytes} (hitem : item ∈ image.sections) :
    image.bytes? item.1 = some item.2 := by
  obtain ⟨before, after, hsections⟩ := List.append_of_mem hitem
  refine List.lookup_eq_some_iff.2 ⟨before, after, hsections, fun other hother => ?_⟩
  rw [hsections, List.map_append, List.nodup_append] at hnodup
  have hne := hnodup.2.2 other.1 (List.mem_map_of_mem hother) item.1 (by simp)
  simpa using Ne.symm hne

theorem Manifest.verify_of_mem (generation : UInt64)
    (hnodup : (image.sections.map Prod.fst).Nodup) {item : Section × Bytes}
    (hitem : item ∈ image.sections) :
    (ofImage digest generation image).verify digest item.1 item.2 = .ok () := by
  rw [verify_ofImage, Image.bytes?_of_mem hnodup hitem]
  exact if_pos ⟨rfl, rfl⟩

theorem readGeneration_ok {m : Manifest} (hfingerprint : m.fingerprint = image.fingerprint)
    (hdata : image.sections.map Prod.fst = Section.data)
    (hread : ∀ item ∈ image.sections,
      fs.read ((directory base m.generation).child item.1.entry) = .ok item.2)
    (hverify : ∀ item ∈ image.sections, m.verify digest item.1 item.2 = .ok ()) :
    readGeneration digest fs base m = .ok image := by
  unfold readGeneration
  rw [← hdata, mapM_ok, hfingerprint]
  · rfl
  · intro item hitem
    dsimp only
    rw [hread item hitem]
    dsimp only
    rw [hverify item hitem]
    rfl

namespace Plan.Published

variable {plan : Plan}

theorem read_manifest (h : plan.Published fs) :
    fs.read (manifestPath plan.base) = .ok plan.manifest.encode :=
  read_of_lookup (h.enter.resolve (isName_entry .manifest) (by decide) h.short) h.manifest
    (by decide)

theorem readManifest (h : plan.Published fs)
    (hmanifest : Manifest.decode plan.manifest.encode = .ok plan.manifest) :
    Generation.readManifest fs plan.base = .ok (some plan.manifest) :=
  readManifest_some.mpr ⟨_, h.read_manifest, hmanifest⟩

theorem isFile (h : plan.Published fs) : fs.isFile (manifestPath plan.base) = true :=
  isFile_iff.mpr
    ⟨h.enter.resolve (isName_entry .manifest) (by decide) h.short, _, _, h.manifest⟩

theorem read_section (h : plan.Published fs) {item : Section × Bytes}
    (hitem : item ∈ plan.sections)
    (hshort : checkPath ((directory plan.base plan.generation).child item.1.entry) = .ok ()) :
    fs.read ((directory plan.base plan.generation).child item.1.entry) = .ok item.2 := by
  have henter : fs.CanEnter (directory plan.base plan.generation) :=
    h.enter.child (isName_name _) (size_name_le _) h.directory (by decide)
  have hsize : item.1.entry.size ≤ 255 := by cases item.1 <;> decide
  have hentry := h.sections item hitem
  rw [← Extends.place_section] at hentry
  exact read_of_lookup (henter.resolve (isName_entry _) hsize hshort) hentry (by decide)

end Plan.Published

theorem loadParts_of_published {names : List FileName}
    (h : (Plan.make digest chance fs base names image).Published files)
    (hdata : image.sections.map Prod.fst = Section.data)
    (hshort : ∀ s ∈ Section.data,
      checkPath ((directory base (latest fs base names + 1)).child s.entry) = .ok ())
    (fingerprint : UInt64) : loadParts digest files base fingerprint =
      if image.fingerprint ≠ fingerprint then
        .error (.fingerprintMismatch fingerprint image.fingerprint)
      else image.decode fingerprint := by
  let plan := Plan.make digest chance fs base names image
  have hmanifest : readManifest files base = .ok (some plan.manifest) :=
    h.readManifest (Manifest.read_back_ofImage digest _ hdata)
  have hread : readGeneration digest files base plan.manifest = .ok image :=
    readGeneration_ok rfl hdata
      (fun item hitem => h.read_section hitem (hshort _ (hdata ▸ List.mem_map_of_mem hitem)))
      fun item hitem => Manifest.verify_of_mem _ (by rw [hdata]; decide) hitem
  unfold loadParts
  rw [hmanifest]
  show (if _ then _ else _) = _
  rw [hread]
  rfl

end

/-! ## Storing in a location -/

theorem isTree_makeDirectories {files : FileSystem} (tree : files.IsTree) (p : Path) :
    (files.makeDirectories p).1.IsTree := by
  have hstep : ∀ q ∈ p.lineage, ∀ fs : FileSystem, fs.IsTree → (fs.ensureDirectory q).1.IsTree := by
    intro q _ fs htree
    rcases ensureDirectory_cases fs q with hsame | ⟨hparent, hnone, hmade⟩
    · rwa [hsame]
    · rw [hmade]
      exact htree.put hparent hnone _
  exact lineageTrace_invariant hstep tree _ (files.makeLineage_mem_trace p.lineage)

/-- Storing in a location lasts: the primary path does not step back from a generation or a
staging directory of its own, and the sections of the next generation have paths that are not too
long to be read. -/
structure Location.Lasting (l : Location) (files : FileSystem) : Prop where
  kept {base : Path} : base ∈ l.primary → ∀ v ∈ base.left, ∀ n,
    base.place ++ [n] <+: v → isStale none n = false
  short {base : Path} : base ∈ l.primary → ∀ generation ∈ l.found? files, ∀ s ∈ Section.data,
    checkPath ((directory base (generation + 1)).child s.entry) = .ok ()

/-- A location lasts if its primary path has no steps back and leaves room for a name of a
generation and one of a section. -/
theorem Location.lasting_of_no_steps_back {l : Location} (files : FileSystem)
    (hback : ∀ base ∈ l.primary, ↑".." ∉ base.parts)
    (hsize : ∀ base ∈ l.primary, base.size ≤ 3800) : l.Lasting files where
  kept {base} hbase v hv := by
    rw [Path.left, Path.leaves_eq_nil _ (hback base hbase)] at hv
    exact absurd hv List.not_mem_nil
  short {base} hbase generation hfound s _ := by
    have hcheck : checkPath base = .ok () := by
      unfold found? at hfound
      rw [show l.primary = some base from hbase] at hfound
      dsimp only at hfound
      split at hfound
      · rename_i hread
        exact checkPath_of_resolve (readDirectory_ok hread).1
      · cases hfound
    have hroom := hsize base hbase
    have hname := size_name_le (generation + 1)
    have hfile : s.entry.size ≤ 17 := by cases s <;> decide
    obtain ⟨n, hn, htext⟩ := base.size_child
    have hdirectory := htext (name (generation + 1))
    refine checkPath_entry (checkPath_entry hcheck (zero_not_mem_name _) (by omega))
      (by cases s <;> decide) ?_
    unfold directory
    omega

theorem Location.of_store_ok {digest : DigestFunction} {chance : Chance} {l : Location}
    {files : FileSystem} {image : Image} {generation : UInt64}
    (h : (l.store digest chance files image).2.2 = .ok generation) :
    ∃ base made names, l.primary = some base ∧ (files.makeDirectories base).1 = made ∧
      made.readDirectory base = .ok names ∧
      ((Plan.make digest chance made base names image).publish chance made).result =
        .ok generation ∧
      (l.store digest chance files image).1 =
        ((Plan.make digest chance made base names image).publish chance made).files ∧
      (l.store digest chance files image).2.1 =
        ((Plan.make digest chance made base names image).publish chance made).log base := by
  unfold Location.store at h ⊢
  cases htarget : l.target? with
  | none =>
    rw [htarget] at h
    cases h
  | some base =>
    have hbase : l.primary = some base := mem_primary_of_target? htarget
    rw [htarget] at h
    dsimp only at h ⊢
    unfold publish at h ⊢
    generalize hmake : files.makeDirectories base = done at h ⊢
    obtain ⟨made, e | ⟨⟨⟩⟩⟩ := done
    · cases h
    dsimp only at h ⊢
    cases hread : made.readDirectory base with
    | error e =>
      rw [hread] at h
      cases h
    | ok names =>
      rw [hread] at h
      exact ⟨base, made, names, hbase, by rw [hmake], hread, h, rfl, rfl⟩

/-- Where an image was stored, its publication in the primary directory was carried out, and the
sections can be read there. -/
theorem Location.published_of_store {digest : DigestFunction} {chance : Chance} {l : Location}
    {files : FileSystem} {image : Image} (tree : files.IsTree) (lasting : l.Lasting files)
    (hdata : image.sections.map Prod.fst = Section.data) {generation : UInt64}
    (hstore : (l.store digest chance files image).2.2 = .ok generation) :
    ∃ base made names, l.primary = some base ∧
      (Plan.make digest chance made base names image).Published
        (l.store digest chance files image).1 ∧
      latest made base names + 1 = generation ∧
      ∀ s ∈ Section.data, checkPath ((directory base generation).child s.entry) = .ok () := by
  obtain ⟨base, made, names, hbase, rfl, hread, hok, hfiles, -⟩ := of_store_ok hstore
  have hpublished := Plan.published_of_publish
    (Plan.lasts_make (isTree_makeDirectories tree base) hread (lasting.kept hbase) hdata) hok
  obtain ⟨rfl, -⟩ := Plan.of_publish_ok hok
  refine ⟨base, _, names, hbase, hfiles ▸ hpublished, rfl, ?_⟩
  exact lasting.short hbase _ (mem_found? hbase hread)

theorem Location.load_of_store {digest : DigestFunction} {chance : Chance} {l : Location}
    {files : FileSystem} {image : Image} (tree : files.IsTree) (lasting : l.Lasting files)
    (hdata : image.sections.map Prod.fst = Section.data) {generation : UInt64}
    (hstore : (l.store digest chance files image).2.2 = .ok generation) :
    ∃ base, ∀ fingerprint, l.load digest (l.store digest chance files image).1 fingerprint =
      if image.fingerprint ≠ fingerprint then
        .error (.fingerprintMismatch fingerprint image.fingerprint)
      else (image.decode fingerprint).map (base, ·) := by
  obtain ⟨base, made, names, hbase, hpublished, rfl, hshort⟩ :=
    published_of_store tree lasting hdata hstore
  refine ⟨base, fun fingerprint => ?_⟩
  have hprobe : l.probe (l.store digest chance files image).1 = some base := by
    unfold Location.probe
    rw [hbase]
    exact List.find?_cons_of_pos hpublished.isFile
  unfold Location.load
  rw [hprobe]
  dsimp only
  rw [loadParts_of_published hpublished hdata hshort]
  split_ifs <;> rfl

end PluginRegistry.Cache
