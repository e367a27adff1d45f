import PluginRegistry.Proofs.Files
import PluginRegistry.Proofs.Images
import PluginRegistry.Proofs.Integrity

/-!
# What decoding arbitrary bytes gives

Whatever bytes an image is made of, parts that are decoded from it are intact, their elements have
whole pairs of properties and their contributions flat arrays that are as long as they say
(`Image.sound_of_decode`). Entries of the table may overlap, leave ids out and come in any order;
all that matters is that each object was rebuilt from a record of its kind and from strings in the
extra section (`Image.forall₂_rebuilt`), and that the integrity check was passed.
-/

namespace PluginRegistry

/-! ## Flat arrays -/

namespace Contribution

/-- A flat array is as long as its two counts say. -/
def Counted (raw : List UInt32) : Prop :=
  ∃ points extensions, raw[0]? = some points ∧ raw[1]? = some extensions ∧
    raw.length = 2 + points.toNat + extensions.toNat

/-- The ids from one position of a flat array up to another; `none` if these are not inside. -/
def idsBetween? (raw : List UInt32) (start stop : Nat) : Option (List ObjectId) :=
  if start ≤ stop ∧ stop ≤ raw.length then some (((raw.take stop).drop start).map ObjectId.mk)
  else none

/-- The points in a flat array: behind the counts, as many as the first of them says. -/
def pointsIn? (raw : List UInt32) : Option (List ObjectId) :=
  raw[0]?.bind fun points => idsBetween? raw 2 (2 + points.toNat)

/-- The extensions in a flat array: all that stands behind the points. -/
def extensionsIn? (raw : List UInt32) : Option (List ObjectId) :=
  raw[0]?.bind fun points => idsBetween? raw (2 + points.toNat) raw.length

/-- A flat array that was accepted is as long as it says, and neither half of it is read from
outside. -/
theorem counted_of_ofRaw? {contributor : ContributorId} {ns : String} {raw : List UInt32}
    {c : Contribution} (h : ofRaw? contributor ns raw = some c) :
    Counted raw ∧ pointsIn? raw = some c.points ∧ extensionsIn? raw = some c.extensions := by
  match raw with
  | [] => simp [ofRaw?] at h
  | [_] => simp [ofRaw?] at h
  | points :: extensions :: ids =>
    simp only [ofRaw?] at h
    split at h
    · rename_i hlength
      cases h
      have htake : 2 + points.toNat = points.toNat + 1 + 1 := by omega
      have hlast : (points :: extensions :: ids).length =
          2 + points.toNat + extensions.toNat := by
        rw [List.length_cons, List.length_cons, hlength]
        omega
      refine ⟨⟨points, extensions, rfl, rfl, hlast⟩, ?_, ?_⟩
      · rw [pointsIn?, List.getElem?_cons_zero, Option.bind_some, idsBetween?,
          if_pos ⟨by omega, by omega⟩, htake]
        rfl
      · rw [extensionsIn?, List.getElem?_cons_zero, Option.bind_some, idsBetween?,
          if_pos ⟨by omega, by omega⟩, List.take_length, htake]
        rfl
    · cases h

end Contribution

namespace Cache

namespace Image

/-! ## The strings of an element -/

theorem pairUp?_eq_some_iff {strings : List String} {properties : List (String × String)} :
    pairUp? strings = some properties ↔ flatten properties = strings := by
  constructor
  · intro h
    fun_induction pairUp? strings generalizing properties with
    | case1 =>
      cases h
      rfl
    | case2 => cases h
    | case3 key value rest ih =>
      obtain ⟨others, hothers, rfl⟩ := Option.map_eq_some_iff.1 h
      rw [flatten, ih hothers]
  · rintro rfl
    exact pairUp?_flatten properties

/-- The value behind a key, looked for two strings at a time; `none` if a key has nothing behind
it. -/
def valueIn? (key : String) : List String → Option (Option String)
  | [] => some none
  | [_] => none
  | other :: value :: rest => if key == other then some (some value) else valueIn? key rest

theorem valueIn?_flatten (key : String) (properties : List (String × String)) :
    valueIn? key (flatten properties) = some (properties.lookup key) := by
  induction properties with
  | nil => rfl
  | cons property properties ih =>
    rw [flatten, valueIn?, ih, List.lookup_cons]
    cases key == property.1 <;> rfl

theorem length_flatten (properties : List (String × String)) :
    (flatten properties).length = 2 * properties.length := by
  induction properties with
  | nil => rfl
  | cons property properties ih =>
    rw [flatten, List.length_cons, List.length_cons, ih, List.length_cons]
    omega

/-! ## The objects -/

theorem rebuild_ok {id : ObjectId} {record : MainRecord} {own : StringRecord}
    {object : RegistryObject} (h : rebuild id record own = .ok object) :
    object.id = id ∧ object.kind = record.kind ∧ object.children = record.children ∧
      ∀ e, .element e = object → own = .element e.name (flatten e.properties) e.value := by
  unfold rebuild at h
  split at h
  · cases h
    exact ⟨rfl, rfl, rfl, nofun⟩
  · cases h
    exact ⟨rfl, rfl, rfl, nofun⟩
  · split at h
    · rename_i properties hpairs
      cases h
      refine ⟨rfl, rfl, rfl, ?_⟩
      rintro e ⟨⟩
      rw [pairUp?_eq_some_iff.1 hpairs]
    · cases h
  · cases h

theorem takeStrings_ok {strings rest : Array (Option StringRecord)} {id : ObjectId}
    {index : UInt32} {own : StringRecord} (h : takeStrings strings id index = .ok (own, rest)) :
    strings[index.toNat]? = some (some own) ∧
      ∀ (i : Nat) (record : StringRecord),
        rest[i]? = some (some record) → strings[i]? = some (some record) := by
  unfold takeStrings at h
  split at h
  · rename_i record hrecord
    cases h
    refine ⟨hrecord, fun i other hother => ?_⟩
    rw [Array.getElem?_setIfInBounds] at hother
    split at hother
    · split at hother <;> cases hother
    · exact hother
  · cases h

/-- An object comes from the record at an entry's bytes and from strings that this one names. -/
def Rebuilt (main : Bytes) (strings : Array (Option StringRecord)) (entry : TableEntry)
    (object : RegistryObject) : Prop :=
  entry.offset.toNat + entry.length.toNat ≤ main.length ∧ ∃ record own,
    readBody .main MainRecord.read ((main.drop entry.offset.toNat).take entry.length.toNat) =
      .ok record ∧ record.kind = entry.kind ∧
      strings[record.strings.toNat]? = some (some own) ∧ rebuild entry.id record own = .ok object

/-- Each entry of the table gives one object. Strings that were taken are missing later, but what
is not missing is what was there at first. -/
theorem forall₂_rebuilt {main : Bytes} {strings : Array (Option StringRecord)}
    {entries : List TableEntry} {objects : List RegistryObject}
    (h : readObjects main strings entries = .ok objects) :
    List.Forall₂ (Rebuilt main strings) entries objects := by
  induction entries generalizing strings objects with
  | nil =>
    cases h
    exact .nil
  | cons entry entries ih =>
    rw [readObjects] at h
    obtain ⟨hinside, h⟩ := of_guard_ok h
    obtain ⟨record, hrecord, h⟩ := of_bind_ok h
    obtain ⟨hkind, h⟩ := of_guard_ok h
    obtain ⟨⟨own, rest⟩, htake, h⟩ := of_bind_ok h
    obtain ⟨object, hobject, h⟩ := of_bind_ok h
    obtain ⟨others, hothers, h⟩ := of_bind_ok h
    cases h
    obtain ⟨hown, hleft⟩ := takeStrings_ok htake
    refine .cons ⟨Nat.not_lt.1 hinside, record, own, hrecord, not_not.1 hkind, hown, hobject⟩ ?_
    refine (ih hothers).imp fun other o hrebuilt => ?_
    obtain ⟨hin, record', own', hread, hk, hthere, hbuilt⟩ := hrebuilt
    exact ⟨hin, record', own', hread, hk, hleft _ _ hthere, hbuilt⟩

/-! ## The sections -/

def table (image : Image) : Except Error Table := image.body .table >>= readBody .table Table.read

def strings (image : Image) : Except Error (List StringRecord) :=
  image.body .extra >>= readBody .extra (Wire.Reader.list StringRecord.read)

def contributionRecords (image : Image) : Except Error (List ContributionRecord) :=
  image.body .contributions >>=
    readBody .contributions (Wire.Reader.list ContributionRecord.read)

/-- A contribution that was read has the record it was read from, and a flat array as long as that
says. -/
theorem readContribution_ok {record : ContributionRecord} {c : Contribution}
    (h : readContribution record = .ok c) :
    contributionRecord c = record ∧ Contribution.Counted c.raw ∧
      Contribution.pointsIn? c.raw = some c.points ∧
      Contribution.extensionsIn? c.raw = some c.extensions := by
  unfold readContribution at h
  split at h
  · rename_i c' hraw
    cases h
    obtain ⟨hcontributor, hns, harray⟩ := Contribution.raw_of_ofRaw? hraw
    rw [contributionRecord, hcontributor, hns, harray]
    exact ⟨rfl, Contribution.counted_of_ofRaw? hraw⟩
  · cases h

theorem map_contributionRecord {records : List ContributionRecord}
    {contributions : List Contribution} (h : records.mapM readContribution = .ok contributions) :
    contributions.map contributionRecord = records ∧ ∀ c ∈ contributions,
      Contribution.Counted c.raw ∧ Contribution.pointsIn? c.raw = some c.points ∧
        Contribution.extensionsIn? c.raw = some c.extensions := by
  have hall := forall₂_of_mapM h
  clear h
  induction hall with
  | nil => exact ⟨rfl, fun c hc => absurd hc List.not_mem_nil⟩
  | cons hfirst _ ih =>
    obtain ⟨hrecord, hflat⟩ := readContribution_ok hfirst
    rw [List.map_cons, hrecord, ih.1, List.forall_mem_cons]
    exact ⟨rfl, hflat, ih.2⟩

/-- What parts are like that were decoded from an image. -/
structure Holds (image : Image) (expected : UInt64) (parts : Parts) : Prop where
  table : ∃ t, image.table = .ok t ∧ t.fingerprint = expected ∧ t.nextId = parts.nextId ∧
    t.entries.map (fun entry => (entry.id, entry.kind)) = parts.objects.map fun o => (o.id, o.kind)
  intact : parts.Intact
  child_lt : ∀ o ∈ parts.objects, ∀ id ∈ o.children, id.val < parts.nextId
  /-- The properties of an element are all the strings that it has for them, two by two, and no
  key is looked up past their end. -/
  properties : ∃ records, image.strings = .ok records ∧ ∀ e, .element e ∈ parts.objects →
    ∃ strings, .element e.name strings e.value ∈ records ∧ strings.length % 2 = 0 ∧
      flatten e.properties = strings ∧ ∀ key, valueIn? key strings = some (e.attribute? key)
  /-- The contributions are those of the section, and their flat arrays can be read. -/
  contributions : image.contributionRecords = .ok (parts.contributions.map contributionRecord) ∧
    ∀ c ∈ parts.contributions, Contribution.Counted c.raw ∧
      Contribution.pointsIn? c.raw = some c.points ∧
      Contribution.extensionsIn? c.raw = some c.extensions

theorem strings_of_rebuilt {main : Bytes} {records : List StringRecord}
    {entries : List TableEntry} {objects : List RegistryObject}
    (h : List.Forall₂ (Rebuilt main (records.map some).toArray) entries objects)
    {e : Element} (he : .element e ∈ objects) :
    .element e.name (flatten e.properties) e.value ∈ records := by
  induction h with
  | nil => cases he
  | cons hfirst _ ih =>
    rcases List.mem_cons.1 he with heq | hlater
    · obtain ⟨-, record, own, -, -, hown, hobject⟩ := hfirst
      rw [List.getElem?_toArray, List.getElem?_map] at hown
      obtain ⟨_, hthere, ⟨⟩⟩ := Option.map_eq_some_iff.1 hown
      rw [← (rebuild_ok hobject).2.2.2 e heq]
      exact List.mem_of_getElem? hthere
    · exact ih hlater

theorem holds_of_decode {image : Image} {expected : UInt64} {parts : Parts}
    (h : image.decode expected = .ok parts) : image.Holds expected parts := by
  unfold decode at h
  obtain ⟨tableBody, htableBody, h⟩ := of_bind_ok h
  obtain ⟨t, ht, h⟩ := of_bind_ok h
  obtain ⟨hfingerprint, h⟩ := of_guard_ok h
  obtain ⟨main, -, h⟩ := of_bind_ok h
  obtain ⟨extra, hextra, h⟩ := of_bind_ok h
  obtain ⟨records, hrecords, h⟩ := of_bind_ok h
  obtain ⟨objects, hobjects, h⟩ := of_bind_ok h
  obtain ⟨body, hbody, h⟩ := of_bind_ok h
  obtain ⟨flat, hflat, h⟩ := of_bind_ok h
  obtain ⟨contributions, hcontributions, h⟩ := of_bind_ok h
  obtain ⟨_, -, h⟩ := of_bind_ok h
  obtain ⟨orphans, -, h⟩ := of_bind_ok h
  obtain ⟨_, hcheck, h⟩ := of_bind_ok h
  cases h
  have hrebuilt := forall₂_rebuilt hobjects
  have hintact := checkIntegrity_eq_ok_iff.1 hcheck
  obtain ⟨hmap, hcounted⟩ := map_contributionRecord hcontributions
  refine
    { table := ⟨t, ?_, not_not.1 hfingerprint, rfl, ?_⟩
      intact := hintact
      child_lt := fun o ho id hid => ?_
      properties := ⟨records, ?_, fun e he => ?_⟩
      contributions := ⟨?_, hcounted⟩ }
  · rw [table, htableBody]
    exact ht
  · refine List.forall₂_eq_eq_eq ▸ List.forall₂_map_left_iff.2 (List.forall₂_map_right_iff.2 ?_)
    refine hrebuilt.imp fun entry object hone => ?_
    obtain ⟨-, record, own, -, hkind, -, hobject⟩ := hone
    obtain ⟨hid, hk, -⟩ := rebuild_ok hobject
    rw [hid, hk, hkind]
  · obtain ⟨child, hchild, rfl, -⟩ := hintact.child o ho id hid
    exact hintact.id_lt child hchild
  · rw [strings, hextra]
    exact hrecords
  · refine ⟨_, strings_of_rebuilt hrebuilt he, ?_, rfl, fun key => valueIn?_flatten key _⟩
    rw [length_flatten]
    exact Nat.mul_mod_right 2 _
  · rw [contributionRecords, hbody, hmap]
    exact hflat

/-- Parts that are decoded from any bytes at all are sound; the integrity check accepts the intact
parts and no others; and a table with another fingerprint is reported whatever else is there. -/
theorem sound_of_decode (image : Image) (expected : UInt64) :
    (∀ parts, image.decode expected = .ok parts → image.Holds expected parts) ∧
      (∀ parts, checkIntegrity parts = .ok () ↔ parts.Intact) ∧
      ∀ t, image.table = .ok t → t.fingerprint ≠ expected →
        image.decode expected = .error (.fingerprintMismatch expected t.fingerprint) := by
  refine ⟨fun parts h => holds_of_decode h, fun parts => checkIntegrity_eq_ok_iff,
    fun t ht hother => ?_⟩
  obtain ⟨tableBody, htableBody, ht⟩ := of_bind_ok ht
  unfold decode
  simp only [bind, Except.bind, htableBody, ht, if_pos hother, throw, throwThe,
    MonadExceptOf.throw]

/-- An image that no encoder makes: the record of its extension starts inside that of its point,
and most of its ids are not used. -/
def overlapping : Image where
  fingerprint := 0
  sections := [
    (.table, wrap .table { fingerprint := 7, nextId := 9, entries := [
      ⟨⟨5⟩, .point, 0, 6⟩, ⟨⟨2⟩, .extension, 2, 4⟩] : Table }.write),
    (.main, wrap .main [0, 1, 1, 0, 0, 1]),
    (.extra, wrap .extra (Wire.list StringRecord.write [
      .point "ui.menu" "Menu" none "ui", .extension none "Save" "ui.menu" "tools"])),
    (.contributions, wrap .contributions (Wire.list ContributionRecord.write [
      ⟨⟨1⟩, "ui", [1, 1, 5, 2]⟩])),
    (.orphans, wrap .orphans (Wire.list writeOrphans [("ui.bar", [⟨2⟩])]))]

def overlappingParts : Parts where
  nextId := 9
  objects := [
    .point ⟨⟨5⟩, "ui.menu", "Menu", none, "ui", ⟨1⟩, ⟨1⟩, []⟩,
    .extension ⟨⟨2⟩, none, "Save", "ui.menu", "tools", ⟨0⟩, []⟩]
  contributions := [⟨⟨1⟩, "ui", [⟨5⟩], [⟨2⟩]⟩]
  orphans := [("ui.bar", [⟨2⟩])]

theorem sound_of_decode_overlapping : overlapping.decode 7 = .ok overlappingParts ∧
    overlapping.Holds 7 overlappingParts ∧ checkIntegrity overlappingParts = .ok () ∧
      overlapping.decode 8 = .error (.fingerprintMismatch 8 7) := by
  have hdecode : overlapping.decode 7 = .ok overlappingParts :=
    of_toOption_ok (by decide +kernel)
  obtain ⟨hsound, hcheck, -⟩ := sound_of_decode overlapping 7
  have hholds := hsound _ hdecode
  obtain ⟨t, ht, hfingerprint, -⟩ := hholds.table
  have hother := (sound_of_decode overlapping 8).2.2 t ht (by rw [hfingerprint]; decide)
  rw [hfingerprint] at hother
  exact ⟨hdecode, hholds, (hcheck _).2 hholds.intact, hother⟩

end Image

end Cache

end PluginRegistry
