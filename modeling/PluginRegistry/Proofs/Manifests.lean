import PluginRegistry.Cache.Manifest
import PluginRegistry.Digest.Blake3
import PluginRegistry.Proofs.Images

/-!
# What a manifest says of its image

A manifest is read back from its bytes (`Manifest.read_back`), as long as its list and its
texts fit a machine word. That of an image has no texts but the few file names in it.

The entries of a manifest go by file name and an image by section, and both look-ups take the first
of several. As no two sections have one file name, the manifest of an image accepts for each section
the bytes that the image has for it and refuses all that differ from them in length or in digest
(`Manifest.vouches_ofImage`).
-/

namespace PluginRegistry.Cache

open Wire (Reader)
open Wire.Reader (run_bind_ok run_pure run_u64_append run_list_append run_text_append
  run_take_append)

theorem SectionDigest.run_write_append (d : SectionDigest) (rest : Bytes) (h : FitsText d.file) :
    read.run (d.write ++ rest) = .ok (d, rest) := by
  have htake := run_take_append d.digest.bytes rest
  rw [d.digest.length_bytes] at htake
  simp only [read, write, List.append_assoc]
  rw [run_bind_ok (run_text_append _ _ h), run_bind_ok (run_u64_append _ _), run_bind_ok htake,
    dif_pos d.digest.length_bytes, run_pure]

namespace Manifest

theorem read_back {m : Manifest} (hlength : m.sections.length < UInt64.size)
    (hfile : ∀ d ∈ m.sections, FitsText d.file) : decode m.encode = .ok m := by
  have hread : read.run (Wire.u64 m.generation ++ Wire.u64 m.fingerprint ++
      Wire.list SectionDigest.write m.sections) = .ok (m, []) := by
    have hsections := run_list_append m.sections [] hlength
      fun d hd rest => d.run_write_append rest (hfile d hd)
    rw [List.append_nil] at hsections
    simp only [read, List.append_assoc]
    rw [run_bind_ok (run_u64_append _ _), run_bind_ok (run_u64_append _ _),
      run_bind_ok hsections, run_pure]
  unfold decode encode
  rw [unwrap_wrap]
  exact Image.readBody_ok hread

section

variable (digest : DigestFunction) (generation : UInt64) {image : Image}

theorem read_back_of_length (h : image.sections.length < UInt64.size) :
    decode (ofImage digest generation image).encode = .ok (ofImage digest generation image) := by
  refine read_back (by rwa [ofImage, List.length_map]) fun d hd => ?_
  obtain ⟨⟨s, bytes⟩, -, rfl⟩ := List.mem_map.mp hd
  show FitsText s.fileName
  cases s <;> decide

theorem read_back_ofImage (h : image.sections.map Prod.fst = Section.data) :
    decode (ofImage digest generation image).encode = .ok (ofImage digest generation image) := by
  refine read_back_of_length digest generation ?_
  rw [← List.length_map Prod.fst, h]
  decide

/-! ## Entries -/

theorem digestOf?_ofImage (image : Image) (s : Section) :
    (ofImage digest generation image).digestOf? s = (image.bytes? s).map (entry digest s) := by
  have hfirst : ∀ items : List (Section × Bytes),
      (items.map fun item => entry digest item.1 item.2).find? (·.file = s.fileName) =
        (items.lookup s).map (entry digest s) := by
    intro items
    induction items with
    | nil => rfl
    | cons item items ih =>
      obtain ⟨t, bytes⟩ := item
      rw [List.map_cons, List.lookup_cons]
      by_cases hsame : s = t
      · subst hsame
        rw [List.find?_cons_of_pos (by simp [entry]), beq_self_eq_true]
        rfl
      · have hother : t.fileName ≠ s.fileName := fun h => hsame (Section.fileName_inj h).symm
        rw [List.find?_cons_of_neg (by simpa [entry] using hother), ih, beq_false_of_ne hsame]
  exact hfirst image.sections

theorem verify_ofImage (image : Image) (s : Section) (bytes : Bytes) :
    (ofImage digest generation image).verify digest s bytes =
      match image.bytes? s with
      | none => .error (.corrupt .manifest (.noDigest s))
      | some kept =>
        if kept.length.toUInt64 = bytes.length.toUInt64 ∧ digest kept = digest bytes then .ok ()
        else .error (.checksumMismatch s) := by
  unfold verify
  rw [digestOf?_ofImage]
  cases image.bytes? s with
  | none => rfl
  | some kept => rfl

end

end Manifest

/-- There are no more sections in the image, and no more bytes in one, than a machine word
counts. -/
structure Image.InMemory (image : Image) : Prop where
  sections : image.sections.length < UInt64.size
  bytes : ∀ item ∈ image.sections, item.2.length < UInt64.size

theorem Image.InMemory.length_lt {image : Image} (h : image.InMemory) {s : Section} {kept : Bytes}
    (hkept : image.bytes? s = some kept) : kept.length < UInt64.size := by
  obtain ⟨before, after, hsections, -⟩ := List.lookup_eq_some_iff.1 hkept
  exact h.bytes (s, kept) (by rw [hsections]; simp)

theorem toUInt64_eq_iff {m n : Nat} (hm : m < UInt64.size) (hn : n < UInt64.size) :
    m.toUInt64 = n.toUInt64 ↔ m = n := by
  refine ⟨fun h => ?_, congrArg Nat.toUInt64⟩
  have hvalue := congrArg UInt64.toNat h
  rwa [UInt64.toNat_ofNat_of_lt' hm, UInt64.toNat_ofNat_of_lt' hn] at hvalue

/-- The manifest of an image comes back from its bytes. For a section it accepts the bytes that are
as long as the first ones the image has for it and have the same digest, and no others; for a
section that is not in the image it has no entry. The digest may be any function. -/
theorem Manifest.vouches_ofImage (digest : DigestFunction) (generation : UInt64) {image : Image}
    (h : image.InMemory) :
    decode (ofImage digest generation image).encode = .ok (ofImage digest generation image) ∧
    ∀ (s : Section) (bytes : Bytes), bytes.length < UInt64.size →
      ((ofImage digest generation image).verify digest s bytes = .ok () ↔
        ∃ kept, image.bytes? s = some kept ∧
          bytes.length = kept.length ∧ digest bytes = digest kept) ∧
      ((ofImage digest generation image).verify digest s bytes =
          .error (.corrupt .manifest (.noDigest s)) ↔ image.bytes? s = none) ∧
      ((ofImage digest generation image).verify digest s bytes = .error (.checksumMismatch s) ↔
        ∃ kept, image.bytes? s = some kept ∧
          ¬(bytes.length = kept.length ∧ digest bytes = digest kept)) := by
  refine ⟨read_back_of_length digest generation h.sections, fun s bytes hbytes => ?_⟩
  rw [verify_ofImage]
  cases hkept : image.bytes? s with
  | none => simp
  | some kept =>
    have hfits : (kept.length.toUInt64 = bytes.length.toUInt64 ∧ digest kept = digest bytes) ↔
        bytes.length = kept.length ∧ digest bytes = digest kept := by
      rw [toUInt64_eq_iff (h.length_lt hkept) hbytes, eq_comm (a := kept.length),
        eq_comm (a := digest kept)]
    simp only [hfits, Option.some.injEq, exists_eq_left', reduceCtorEq, iff_false]
    by_cases hmatch : bytes.length = kept.length ∧ digest bytes = digest kept
    · simp only [if_pos hmatch]
      simp [hmatch]
    · simp only [if_neg hmatch]
      simp [hmatch]

/-- An image in which one section is there twice, and only one of the others at all. -/
def sampleRepeated : Image where
  fingerprint := 7
  sections := [(.table, [1, 2]), (.table, [3]), (.manifest, [])]

/-- The first of the two counts. Other bytes of its length are refused for their digest. -/
theorem vouches_sampleRepeated :
    sampleRepeated.InMemory ∧
    Manifest.decode (Manifest.ofImage Blake3.digest 18446744073709551615 sampleRepeated).encode =
      .ok (Manifest.ofImage Blake3.digest 18446744073709551615 sampleRepeated) ∧
    (Manifest.ofImage Blake3.digest 18446744073709551615 sampleRepeated).verify Blake3.digest
      .table [1, 2] = .ok () ∧
    (Manifest.ofImage Blake3.digest 18446744073709551615 sampleRepeated).verify Blake3.digest
      .table [2, 1] = .error (.checksumMismatch .table) ∧
    (Manifest.ofImage Blake3.digest 18446744073709551615 sampleRepeated).verify Blake3.digest
      .table [3] = .error (.checksumMismatch .table) ∧
    (Manifest.ofImage Blake3.digest 18446744073709551615 sampleRepeated).verify Blake3.digest
      .main [] = .error (.corrupt .manifest (.noDigest .main)) := by
  have hmemory : sampleRepeated.InMemory := ⟨by decide, by decide⟩
  have hother : Blake3.digest [2, 1] ≠ Blake3.digest [1, 2] := by decide +kernel
  obtain ⟨hread, hverify⟩ :=
    Manifest.vouches_ofImage Blake3.digest 18446744073709551615 hmemory
  exact ⟨hmemory, hread, (hverify .table [1, 2] (by decide)).1.2 ⟨[1, 2], rfl, rfl, rfl⟩,
    (hverify .table [2, 1] (by decide)).2.2.2 ⟨[1, 2], rfl, fun h => hother h.2⟩,
    (hverify .table [3] (by decide)).2.2.2 ⟨[1, 2], rfl, fun h => absurd h.1 (by decide)⟩,
    (hverify .main [] (by decide)).2.1.2 rfl⟩

end PluginRegistry.Cache
