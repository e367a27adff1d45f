import PluginRegistry.Digest.Blake3
import PluginRegistry.Proofs.Decodings
import PluginRegistry.Proofs.Reopenings

/-!
# Published caches and what is done to them

A cache that was published loads back as the store it was made of, and under another fingerprint
not at all (`Location.exact_of_store`). Its manifest holds the digests of the sections. So as long
as the manifest is there, whatever happens to the rest of the file system, loading gives an error
or that very store, unless two of the byte strings that are read have one digest.
-/

namespace PluginRegistry.Cache

open Generation
open Image (ok_bind)

/-- No file that stands in the place of a section has its digest and other bytes. -/
def NoCollision (digest : DigestFunction) (image : Image) (files : FileSystem) (base : Path)
    (generation : UInt64) : Prop :=
  ∀ item ∈ image.sections, ∀ bytes,
    files.read ((directory base generation).child item.1.entry) = .ok bytes →
      digest bytes = digest item.2 → bytes = item.2

variable {digest : DigestFunction} {image found : Image} {files : FileSystem} {base : Path}
  {generation : UInt64}

/-! ## Reading the sections -/

theorem Manifest.digest_of_verify (hnodup : (image.sections.map Prod.fst).Nodup)
    {item : Section × Bytes} (hitem : item ∈ image.sections) {bytes : Bytes}
    (h : (ofImage digest generation image).verify digest item.1 bytes = .ok ()) :
    digest bytes = digest item.2 := by
  rw [verify_ofImage, Image.bytes?_of_mem hnodup hitem] at h
  dsimp only at h
  split at h
  · rename_i hentry
    exact hentry.2.symm
  · cases h

theorem of_readGeneration_ok {m : Manifest} (h : readGeneration digest files base m = .ok found) :
    found.fingerprint = m.fingerprint ∧
      List.Forall₂ (fun s item => item.1 = s ∧ m.verify digest s item.2 = .ok () ∧
        files.read ((directory base m.generation).child s.entry) = .ok item.2)
          Section.data found.sections := by
  unfold readGeneration at h
  obtain ⟨sections, hsections, h⟩ := of_bind_ok h
  cases h
  refine ⟨rfl, (forall₂_of_mapM hsections).imp fun s item hitem => ?_⟩
  dsimp only at hitem
  split at hitem
  · rename_i bytes hread
    obtain ⟨_, hverify, hitem⟩ := of_bind_ok hitem
    cases hitem
    exact ⟨rfl, hverify, hread⟩
  · cases hitem

theorem eq_of_forall₂ {α : Type} {R : α → α → Prop} {as bs : List α} (h : List.Forall₂ R as bs)
    (heq : ∀ a ∈ as, ∀ b, R a b → a = b) : as = bs := by
  induction h with
  | nil => rfl
  | cons hfirst _ ih =>
    rw [heq _ List.mem_cons_self _ hfirst, ih fun a ha => heq a (List.mem_cons_of_mem _ ha)]

/-- Under the manifest of an image no other image is read, unless there is a collision. -/
theorem eq_of_readGeneration (hdata : image.sections.map Prod.fst = Section.data)
    (hcollision : NoCollision digest image files base generation)
    (h : readGeneration digest files base (Manifest.ofImage digest generation image) = .ok found) :
    found = image := by
  obtain ⟨hfingerprint, hsections⟩ := of_readGeneration_ok h
  have hnodup : (image.sections.map Prod.fst).Nodup := by
    rw [hdata]
    decide
  rw [← hdata, List.forall₂_map_left_iff] at hsections
  have hsame : image.sections = found.sections := by
    refine eq_of_forall₂ hsections fun item hitem other hother => ?_
    obtain ⟨hs, hverify, hread⟩ := hother
    have hdigest := Manifest.digest_of_verify hnodup hitem hverify
    exact Prod.ext hs.symm (hcollision item hitem _ hread hdigest).symm
  obtain ⟨fingerprint, sections⟩ := found
  cases hsame
  cases hfingerprint
  rfl

/-! ## Loading under a manifest -/

/-- What a location loads whose primary directory has the manifest of an image, whatever else there
is. -/
theorem Location.loadStore_of_manifest {l : Location} (hbase : l.primary = some base)
    (hdata : image.sections.map Prod.fst = Section.data)
    (hmanifest : files.read (manifestPath base) =
      .ok (Manifest.ofImage digest generation image).encode) (fingerprint : UInt64) :
    (l.loadStore digest files fingerprint).2 =
      if image.fingerprint ≠ fingerprint then
        .error (.fingerprintMismatch fingerprint image.fingerprint)
      else (readGeneration digest files base (Manifest.ofImage digest generation image) >>=
        fun found => found.decode fingerprint).map Store.ofParts := by
  have hread : readManifest files base = .ok (some (Manifest.ofImage digest generation image)) :=
    readManifest_some.mpr
      ⟨_, hmanifest, Manifest.read_back_ofImage digest generation hdata⟩
  have hprobe : l.probe files = some base := by
    unfold probe
    rw [hbase]
    exact List.find?_cons_of_pos (isFile_of_readManifest hread)
  unfold loadStore load loadParts
  rw [hprobe]
  dsimp only
  rw [hread]
  show _ = if (Manifest.ofImage digest generation image).fingerprint ≠ fingerprint then _ else _
  simp only [ok_bind]
  split_ifs with hother
  · rfl
  · generalize readGeneration digest files base (Manifest.ofImage digest generation image) = read
    cases read with
    | error e => rfl
    | ok found =>
      simp only [ok_bind]
      cases found.decode fingerprint <;> rfl

/-- What is loaded under the manifest of an image is what the image decodes to, unless there is a
collision. -/
theorem Location.decode_of_loadStore {l : Location} (hbase : l.primary = some base)
    (hdata : image.sections.map Prod.fst = Section.data)
    (hmanifest : files.read (manifestPath base) =
      .ok (Manifest.ofImage digest generation image).encode)
    (hcollision : NoCollision digest image files base generation) {copy : Store}
    (hcopy : (l.loadStore digest files image.fingerprint).2 = .ok copy) :
    (image.decode image.fingerprint).map Store.ofParts = .ok copy := by
  rw [loadStore_of_manifest hbase hdata hmanifest,
    if_neg (not_not.2 rfl)] at hcopy
  cases hread : readGeneration digest files base (Manifest.ofImage digest generation image) with
  | error e =>
    rw [hread] at hcopy
    cases hcopy
  | ok found =>
    rw [hread, ok_bind, eq_of_readGeneration hdata hcollision hread] at hcopy
    exact hcopy

/-! ## Publishing and loading -/

/-- A cache that was stored comes back as the store of its parts, and under another fingerprint is
refused. While its manifest stands, no change to the file system makes loading give another store,
unless it brings a collision. -/
theorem Location.exact_of_store {chance : Chance} {l : Location} {parts : Parts} {f : UInt64}
    (hfits : Image.Fits parts)
    (hmain : (Image.layOut 0 0 parts.objects).2.length < UInt32.size)
    (hcheck : checkIntegrity parts = .ok ())
    (hstore : (l.store digest chance files (Image.encode parts f)).2.2 = .ok generation) :
    ∃ base, l.primary = some base ∧
      let manifest := (Manifest.ofImage digest generation (Image.encode parts f)).encode
      (files.IsTree → l.Lasting files →
        let stored := (l.store digest chance files (Image.encode parts f)).1
        stored.read (manifestPath base) = .ok manifest ∧
          (l.loadStore digest stored f).2 = .ok (Store.ofParts parts) ∧
          (Store.ofParts parts).dirty = false) ∧
      ∀ after : FileSystem, after.read (manifestPath base) = .ok manifest →
        (∀ g, g ≠ f → (l.loadStore digest after g).2 = .error (.fingerprintMismatch g f)) ∧
          (NoCollision digest (Image.encode parts f) after base generation →
            ∀ copy, (l.loadStore digest after f).2 = .ok copy → copy = Store.ofParts parts) := by
  have hdata : (Image.encode parts f).sections.map Prod.fst = Section.data := rfl
  have hdecode := Image.decode_of_checked hfits hmain hcheck f
  obtain ⟨base, hbase⟩ : ∃ base, l.target? = some base := by
    cases htarget : l.target? with
    | some base => exact ⟨base, rfl⟩
    | none =>
      unfold store at hstore
      rw [htarget] at hstore
      cases hstore
  refine ⟨base, mem_primary_of_target? hbase, fun tree lasting => ?_, fun after hmanifest => ?_⟩
  · obtain ⟨base', made, names, hbase', hpublished, hgeneration, hshort⟩ :=
      published_of_store tree lasting hdata hstore
    obtain rfl : base' = base := Option.some.inj (hbase'.symm.trans (mem_primary_of_target? hbase))
    obtain ⟨_, hload⟩ := load_of_store tree lasting hdata hstore
    refine ⟨hgeneration ▸ hpublished.read_manifest, ?_, rfl⟩
    unfold loadStore
    rw [hload f, if_neg (show ¬(Image.encode parts f).fingerprint ≠ f from not_not.2 rfl), hdecode]
    rfl
  · have hprimary := mem_primary_of_target? hbase
    refine ⟨fun g hg => ?_, fun hcollision copy hcopy => ?_⟩
    · rw [loadStore_of_manifest hprimary hdata hmanifest g,
        if_pos (show (Image.encode parts f).fingerprint ≠ g from Ne.symm hg)]
      rfl
    · have hparts := decode_of_loadStore hprimary hdata hmanifest hcollision hcopy
      rw [show (Image.encode parts f).fingerprint = f from rfl, hdecode] at hparts
      exact (Except.ok.inj hparts).symm

def storedFiles : FileSystem :=
  (steadyLocation.store Blake3.digest .plain plainFiles (Image.encode Image.sample 7)).1

/-- Where its main section is. -/
def mainPlace : Place := ["p", "gen-2", "main.bin"]

/-- The same with an empty file in the place of the main section. -/
def emptiedFiles : FileSystem := storedFiles.put mainPlace (.file [] .ofFile)

theorem noCollision_emptiedFiles :
    NoCollision Blake3.digest (Image.encode Image.sample 7) emptiedFiles ⟨["p"]⟩ 2 := by
  have hothers : ∀ item ∈ (Image.encode Image.sample 7).sections, item.1 ≠ .main →
      (emptiedFiles.read ((directory ⟨["p"]⟩ 2).child item.1.entry)).toOption = some item.2 := by
    decide +kernel
  have hmain : (emptiedFiles.read ((directory ⟨["p"]⟩ 2).child Section.main.entry)).toOption =
      some [] := by decide +kernel
  have hdigest : ∀ item ∈ (Image.encode Image.sample 7).sections, item.1 = .main →
      Blake3.digest [] ≠ Blake3.digest item.2 := by decide +kernel
  intro item hitem bytes hread hsame
  by_cases hs : item.1 = .main
  · rw [hs, of_toOption_ok hmain] at hread
    cases hread
    exact absurd hsame (hdigest item hitem hs)
  · rw [of_toOption_ok (hothers item hitem hs)] at hread
    exact (Except.ok.inj hread).symm

theorem exact_of_store_sample :
    (steadyLocation.loadStore Blake3.digest storedFiles 7).2 = .ok (Store.ofParts Image.sample) ∧
    (steadyLocation.loadStore Blake3.digest storedFiles 8).2 =
      .error (.fingerprintMismatch 8 7) ∧
    ∀ copy, (steadyLocation.loadStore Blake3.digest emptiedFiles 7).2 = .ok copy →
      copy = Store.ofParts Image.sample := by
  have hstore : (steadyLocation.store Blake3.digest .plain plainFiles
      (Image.encode Image.sample 7)).2.2 = .ok 2 := of_toOption_ok (by decide +kernel)
  obtain ⟨base, hbase, hstored, hafter⟩ := Location.exact_of_store
    ⟨by decide +kernel, by decide +kernel, by decide +kernel, by decide +kernel, by decide +kernel⟩
    (by decide +kernel) rfl hstore
  cases hbase
  obtain ⟨hmanifest, hload, -⟩ := hstored (by decide)
    (Location.lasting_of_no_steps_back plainFiles (by decide) (by decide))
  refine ⟨hload, (hafter storedFiles hmanifest).1 8 (by decide),
    (hafter emptiedFiles ?_).2 noCollision_emptiedFiles⟩
  have hbeside : ∀ v, v ≠ mainPlace →
      emptiedFiles.lookup v = storedFiles.lookup v := fun v hv => by
    rw [emptiedFiles, FileSystem.lookup_put, if_neg hv]
  have hpassed : ∀ v ∈ (manifestPath ⟨["p"]⟩).passed, v ≠ mainPlace := by
    decide +kernel
  rw [FileSystem.read_congr (fun v hv => hbeside v (hpassed v hv)) (hbeside _ (by decide +kernel))]
  exact hmanifest

/-- The primary path steps back from a generation that storing removes. -/
def steppingLocation : Location where
  primary := some ⟨["p", "gen-1", ".."]⟩
  alternative := none
  readOnly := false

/-- The parts are sound and storing them succeeds, but they cannot be loaded. -/
structure Unloadable (chance : Chance) (l : Location) (files : FileSystem) (parts : Parts) :
    Prop where
  fits : Image.Fits parts
  main_lt : (Image.layOut 0 0 parts.objects).2.length < UInt32.size
  checked : checkIntegrity parts = .ok ()
  tree : files.IsTree
  lost : let stored := l.store Blake3.digest chance files (Image.encode parts 7)
    (stored.2.2.toBool, (l.loadStore Blake3.digest stored.1 7).2.toBool) = (true, false)

/-- Neither condition on the paths of a location can be left out. -/
theorem unloadable_unlasting : Unloadable .plain steppingLocation plainFiles plainParts ∧
    Unloadable .plain Registry.wideLocation Registry.wideFiles plainParts := by
  have hfits : Image.Fits plainParts :=
    ⟨by decide, by decide, by decide, by decide, by decide⟩
  exact ⟨⟨hfits, by decide, rfl, by decide, by decide +kernel⟩,
    ⟨hfits, by decide, rfl, by decide, by decide +kernel⟩⟩

end PluginRegistry.Cache
