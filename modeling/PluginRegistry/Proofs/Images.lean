import PluginRegistry.Cache.Image
import PluginRegistry.Proofs.Records

/-!
# Decoding what was encoded

An image of parts decodes to the parts, or to the fault that `checkIntegrity` finds in them; every
other check of `decode` passes (`decode_encode`). For the objects this is an induction along the
table: the record of an object lies at the offset that its entry names, and its strings are the
first that no record took yet.
-/

namespace PluginRegistry.Cache

open Wire (Reader)

/-! ## Sizes -/

theorem length_number_pos (n : Nat) : 1 ≤ (Wire.number n).length := by
  rw [Wire.number]
  split
  · simp
  · simp

theorem length_le_flatMap {α : Type} {write : α → Bytes} (h : ∀ a, 1 ≤ (write a).length)
    (items : List α) : items.length ≤ (items.flatMap write).length := by
  induction items with
  | nil => simp
  | cons a items ih =>
    have ha := h a
    simp only [List.flatMap_cons, List.length_append, List.length_cons]
    omega

theorem length_le_writeIds (ids : List ObjectId) : ids.length ≤ (Wire.list writeId ids).length := by
  have hitems := length_le_flatMap (fun id => length_number_pos id.val.toNat) ids
  simp only [Wire.list, List.length_append]
  exact Nat.le_trans hitems (Nat.le_add_left _ _)

theorem MainRecord.length_write (r : MainRecord) :
    1 ≤ r.write.length ∧ r.children.length ≤ r.write.length := by
  have hkind := length_number_pos (kindTag r.kind)
  have hchildren := length_le_writeIds r.children
  cases r <;> simp only [write, children, kind, writeKind, List.length_append] at * <;> omega

namespace Image

theorem ok_bind {α β : Type} (a : α) (f : α → Except Error β) :
    (Except.ok a >>= f) = f a := rfl

/-! ## The table -/

theorem length_layOut (index offset : Nat) (objects : List RegistryObject) :
    (layOut index offset objects).1.length = objects.length ∧
      objects.length ≤ (layOut index offset objects).2.length := by
  induction objects generalizing index offset with
  | nil => simp [layOut]
  | cons object objects ih =>
    obtain ⟨hentries, hmain⟩ :=
      ih (index + 1) (offset + (mainRecord index.toUInt32 object).write.length)
    have hpos := (mainRecord index.toUInt32 object).length_write.1
    simp only [layOut, List.length_cons, List.length_append]
    omega

/-! ## One object -/

theorem kind_mainRecord (strings : UInt32) (object : RegistryObject) :
    (mainRecord strings object).kind = object.kind := by cases object <;> rfl

theorem strings_mainRecord (strings : UInt32) (object : RegistryObject) :
    (mainRecord strings object).strings = strings := by cases object <;> rfl

theorem pairUp?_flatten (properties : List (String × String)) :
    pairUp? (flatten properties) = some properties := by
  induction properties with
  | nil => rfl
  | cons property properties ih =>
    simp only [flatten, pairUp?, ih, Option.map_some]

theorem rebuild_records (strings : UInt32) (object : RegistryObject) :
    rebuild object.id (mainRecord strings object) (stringRecord object) = .ok object := by
  cases object with
  | point p => rfl
  | extension e => rfl
  | element e =>
    simp only [mainRecord, stringRecord, rebuild, pairUp?_flatten]
    rfl

theorem takeStrings_next (record : StringRecord) (rest : List (Option StringRecord)) (n : Nat)
    (id : ObjectId) (hn : n < UInt32.size) :
    takeStrings (List.replicate n none ++ some record :: rest).toArray id n.toUInt32 =
      .ok (record, (List.replicate (n + 1) none ++ rest).toArray) := by
  have hindex : n.toUInt32.toNat = n := UInt32.toNat_ofNat_of_lt' hn
  have hget : (List.replicate n none ++ some record :: rest).toArray[n]? = some (some record) := by
    simp
  have hset : (List.replicate n none ++ some record :: rest).toArray.setIfInBounds n none =
      (List.replicate (n + 1) none ++ rest).toArray := by
    simp [List.replicate_succ']
  unfold takeStrings
  rw [hindex, hget, hset]

theorem readBody_ok {α : Type} {s : Section} {read : Reader α} {bytes rest : Bytes} {a : α}
    (h : read.run bytes = .ok (a, rest)) : readBody s read bytes = .ok a := by
  unfold readBody Reader.value
  rw [h]

/-! ## All objects -/

/-- Along the table every object is found again. `front` are the records before these. -/
theorem readObjects_layOut (front : Bytes) (index : Nat) (objects : List RegistryObject)
    (hmain : (front ++ (layOut index front.length objects).2).length < UInt32.size)
    (hindex : index + objects.length ≤ UInt32.size) :
    readObjects (front ++ (layOut index front.length objects).2)
      (List.replicate index none ++ (objects.map stringRecord).map some).toArray
      (layOut index front.length objects).1 = .ok objects := by
  induction objects generalizing front index with
  | nil => rfl
  | cons object objects ih =>
    obtain ⟨record, hrecord⟩ : ∃ record, mainRecord index.toUInt32 object = record := ⟨_, rfl⟩
    have hlength := record.length_write.2
    simp only [layOut, hrecord, List.length_append, List.length_cons] at hmain hindex ⊢
    have hoffset : front.length.toUInt32.toNat = front.length :=
      UInt32.toNat_ofNat_of_lt' (by omega)
    have hwritten : record.write.length.toUInt32.toNat = record.write.length :=
      UInt32.toNat_ofNat_of_lt' (by omega)
    have hsize : record.children.length < UInt64.size :=
      Nat.lt_of_lt_of_le (by omega : record.children.length < UInt32.size) (by decide)
    have hread : readBody .main MainRecord.read record.write = .ok record :=
      readBody_ok (by simpa using record.run_write_append [] hsize)
    have hslice : ((front ++ (record.write ++ (layOut (index + 1)
        (front.length + record.write.length) objects).2)).drop front.length).take
          record.write.length = record.write := by simp
    have hkind : record.kind = object.kind := by rw [← hrecord, kind_mainRecord]
    have hstrings : record.strings = index.toUInt32 := by rw [← hrecord, strings_mainRecord]
    have hobject : rebuild object.id record (stringRecord object) = .ok object := by
      rw [← hrecord, rebuild_records]
    have hrest := ih (front ++ record.write) (index + 1)
    simp only [List.length_append, List.append_assoc] at hrest
    rw [readObjects]
    simp only [hoffset, hwritten, hslice, hread, List.map_cons]
    rw [if_neg (by simp only [List.length_append]; omega)]
    simp only [ok_bind, hkind, hstrings, ne_eq, not_true_eq_false, if_false,
      takeStrings_next _ _ index object.id (show index < UInt32.size by omega), hobject,
      hrest (by omega) (by omega)]
    rfl

/-! ## The other sections -/

/-- All lengths in the parts fit a machine word, and the counts of a contribution fit their field
in its flat array. -/
structure Fits (parts : Parts) : Prop where
  strings : ∀ object ∈ parts.objects, (stringRecord object).Fits
  contributions : parts.contributions.length < UInt64.size
  contribution : ∀ c ∈ parts.contributions,
    FitsText c.ns ∧ c.points.length < UInt32.size ∧ c.extensions.length < UInt32.size
  orphans : parts.orphans.length < UInt64.size
  bucket : ∀ bucket ∈ parts.orphans, FitsText bucket.1 ∧ bucket.2.length < UInt64.size

theorem readBody_list {α : Type} {s : Section} {read : Reader α} {write : α → Bytes}
    {items : List α} (hn : items.length < UInt64.size)
    (h : ∀ a ∈ items, ∀ rest, read.run (write a ++ rest) = .ok (a, rest)) :
    readBody s (Reader.list read) (Wire.list write items) = .ok items :=
  readBody_ok (by simpa using Reader.run_list_append items [] hn h)

theorem readBody_contributions {parts : Parts} (h : Fits parts) :
    readBody .contributions (Reader.list ContributionRecord.read)
      (Wire.list ContributionRecord.write (parts.contributions.map contributionRecord)) =
        .ok (parts.contributions.map contributionRecord) := by
  refine readBody_list (by simpa using h.contributions) fun r hr rest => ?_
  obtain ⟨c, hc, rfl⟩ := List.mem_map.1 hr
  obtain ⟨hns, hpoints, hextensions⟩ := h.contribution c hc
  refine ContributionRecord.run_write_append _ rest hns ?_
  have hsize : UInt32.size + UInt32.size + 2 < UInt64.size := by decide
  simp only [contributionRecord, Contribution.raw, List.length_cons, List.length_append,
    List.length_map]
  omega

theorem mapM_readContribution {contributions : List Contribution}
    (h : ∀ c ∈ contributions, c.points.length < UInt32.size ∧ c.extensions.length < UInt32.size) :
    (contributions.map contributionRecord).mapM readContribution = .ok contributions := by
  induction contributions with
  | nil => rfl
  | cons c contributions ih =>
    obtain ⟨hpoints, hextensions⟩ := h c List.mem_cons_self
    have hc : readContribution (contributionRecord c) = .ok c := by
      unfold readContribution contributionRecord
      rw [Contribution.ofRaw?_raw c hpoints hextensions]
    rw [List.map_cons, List.mapM_cons, hc, ok_bind,
      ih fun c hmem => h c (List.mem_cons_of_mem _ hmem)]
    rfl

/-! ## The whole image -/

def tableOf (parts : Parts) (fingerprint : UInt64) : Table :=
  { fingerprint, nextId := parts.nextId, entries := (layOut 0 0 parts.objects).1 }

/-- What stands behind the header of each section. -/
def bodyOf (parts : Parts) (fingerprint : UInt64) : Section → Bytes
  | .table => (tableOf parts fingerprint).write
  | .main => (layOut 0 0 parts.objects).2
  | .extra => Wire.list StringRecord.write (parts.objects.map stringRecord)
  | .contributions =>
    Wire.list ContributionRecord.write (parts.contributions.map contributionRecord)
  | .orphans => Wire.list writeOrphans parts.orphans
  | .manifest => []

theorem bytes?_encode (parts : Parts) (f : UInt64) {s : Section} (hs : s ∈ Section.data) :
    (encode parts f).bytes? s = some (wrap s (bodyOf parts f s)) := by
  cases s with
  | manifest => simp [Section.data] at hs
  | table => rfl
  | main => rfl
  | extra => rfl
  | contributions => rfl
  | orphans => rfl

theorem body_encode (parts : Parts) (f : UInt64) {s : Section} (hs : s ∈ Section.data) :
    (encode parts f).body s = .ok (bodyOf parts f s) := by
  rw [body, bytes?_encode parts f hs]
  exact unwrap_wrap s _

theorem length_objects_lt {parts : Parts}
    (hmain : (layOut 0 0 parts.objects).2.length < UInt32.size) :
    parts.objects.length < UInt32.size := by
  have hlengths := length_layOut 0 0 parts.objects
  omega

theorem readBody_table {parts : Parts}
    (hmain : (layOut 0 0 parts.objects).2.length < UInt32.size) (f : UInt64) :
    readBody .table Table.read (bodyOf parts f .table) = .ok (tableOf parts f) := by
  have hentries : (tableOf parts f).entries.length < UInt64.size := by
    rw [tableOf, (length_layOut 0 0 parts.objects).1]
    exact Nat.lt_trans (length_objects_lt hmain) (by decide)
  exact readBody_ok (by simpa [bodyOf] using (tableOf parts f).run_write_append [] hentries)

/-- With the right fingerprint decoding gives the parts if `checkIntegrity` accepts them, and its
fault otherwise. -/
theorem decode_of_fits {parts : Parts} (h : Fits parts)
    (hmain : (layOut 0 0 parts.objects).2.length < UInt32.size) (f : UInt64) :
    (encode parts f).decode f = (checkIntegrity parts).map fun _ => parts := by
  have hbody := fun s (hs : s ∈ Section.data) => body_encode parts f hs
  have hobjects := length_objects_lt hmain
  have hreadStrings : readBody .extra (Reader.list StringRecord.read)
      (Wire.list StringRecord.write (parts.objects.map stringRecord)) =
        .ok (parts.objects.map stringRecord) := by
    have hlength : parts.objects.length < UInt64.size := Nat.lt_trans hobjects (by decide)
    refine readBody_list (by simpa using hlength) fun r hr rest => ?_
    obtain ⟨object, hobject, rfl⟩ := List.mem_map.1 hr
    exact StringRecord.run_write_append _ rest (h.strings object hobject)
  have hreadObjects : readObjects (layOut 0 0 parts.objects).2
      ((parts.objects.map stringRecord).map some).toArray (layOut 0 0 parts.objects).1 =
        .ok parts.objects := by
    simpa using readObjects_layOut [] 0 parts.objects (by simpa using hmain) (by omega)
  have hreadOrphans : readBody .orphans (Reader.list readOrphans)
      (Wire.list writeOrphans parts.orphans) = .ok parts.orphans :=
    readBody_list h.orphans fun bucket hb rest =>
      run_writeOrphans_append bucket rest (h.bucket bucket hb).1 (h.bucket bucket hb).2
  unfold decode
  rw [hbody .table (by decide), ok_bind, readBody_table hmain, ok_bind]
  simp only [tableOf, ne_eq, not_true_eq_false, if_false, hbody .main (by decide),
    hbody .extra (by decide), hbody .contributions (by decide), hbody .orphans (by decide),
    bodyOf, ok_bind, hreadStrings, hreadObjects, readBody_contributions h,
    mapM_readContribution fun c hc => (h.contribution c hc).2, hreadOrphans]
  cases checkIntegrity parts with
  | ok _ => rfl
  | error e => rfl

theorem decode_of_checked {parts : Parts} (h : Fits parts)
    (hmain : (layOut 0 0 parts.objects).2.length < UInt32.size)
    (hcheck : checkIntegrity parts = .ok ()) (f : UInt64) :
    (encode parts f).decode f = .ok parts := by
  rw [decode_of_fits h hmain f, hcheck]
  rfl

/-- The sections are all there; decoding refuses another fingerprint, and with the right one gives
the parts if `checkIntegrity` accepts them, and its fault otherwise. -/
theorem decode_encode {parts : Parts} (h : Fits parts)
    (hmain : (layOut 0 0 parts.objects).2.length < UInt32.size) (f g : UInt64) :
    (∀ s ∈ Section.data, ((encode parts f).bytes? s).isSome) ∧
      (f ≠ g → (encode parts f).decode g = .error (.fingerprintMismatch g f)) ∧
      (encode parts f).decode f = (checkIntegrity parts).map fun _ => parts := by
  refine ⟨fun s hs => ?_, fun hne => ?_, decode_of_fits h hmain f⟩
  · rw [bytes?_encode parts f hs]
    rfl
  · unfold decode
    rw [body_encode parts f (s := .table) (by decide), ok_bind, readBody_table hmain, ok_bind]
    simp only [tableOf, ne_eq, hne, not_false_eq_true, if_true]
    rfl

def sample : Parts where
  nextId := 4
  objects := [
    .point ⟨⟨0⟩, "ui.menu", "Menu", none, "ui", ⟨1⟩, ⟨1⟩, [⟨1⟩]⟩,
    .extension ⟨⟨1⟩, some "save", "Save", "ui.menu", "tools", ⟨2⟩, [⟨2⟩]⟩,
    .element ⟨⟨2⟩, "item", [("key", "S")], some "x", ⟨1⟩, .extension, ⟨2⟩, ⟨2⟩, []⟩,
    .extension ⟨⟨3⟩, none, "", "ui.bar", "tools", ⟨2⟩, []⟩]
  contributions := [⟨⟨1⟩, "ui", [⟨0⟩], []⟩, ⟨⟨2⟩, "tools", [], [⟨1⟩, ⟨3⟩]⟩]
  orphans := [("ui.bar", [⟨3⟩])]

theorem decode_encode_sample : (encode sample 7).decode 8 = .error (.fingerprintMismatch 8 7) ∧
    (encode sample 7).decode 7 = .ok sample := by
  have hfits : Fits sample := by
    refine ⟨?_, ?_, ?_, ?_, ?_⟩ <;> decide +kernel
  have hmain : (layOut 0 0 sample.objects).2.length < UInt32.size := by decide +kernel
  have hsound : checkIntegrity sample = .ok () := rfl
  refine ⟨(decode_encode hfits hmain 7 8).2.1 (by decide), ?_⟩
  rw [(decode_encode hfits hmain 7 7).2.2, hsound]
  rfl

end Image

end PluginRegistry.Cache
