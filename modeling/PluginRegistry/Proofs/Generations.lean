import PluginRegistry.Cache.Step
import PluginRegistry.Proofs.Paths

/-!
# The names in a cache directory

A new name is its stem with some letters, so it is hidden (`isHidden_staging`), and it is not taken
by law. The number of a generation can be read off its name (`ofName?_name`), so a generation above
the latest (`le_latest`, `live_le_latest`) has a name that no entry has and that the manifest does
not speak of.
-/

namespace PluginRegistry

/-! ## Zeros in names -/

theorem zero_not_mem_utf8EncodeChar {c : Char} (h : c ≠ '\x00') :
    0 ∉ String.utf8EncodeChar c := by
  have hpos : c.val.toNat ≠ 0 := fun hzero => h (Char.ext (UInt32.toNat_inj.1 hzero))
  intro hmem
  unfold String.utf8EncodeChar at hmem
  generalize c.val.toNat = n at hpos hmem
  dsimp only at hmem
  split_ifs at hmem <;>
    simp only [List.mem_cons, List.not_mem_nil, or_false, ← UInt8.toNat_inj, UInt8.toNat_ofNat',
      UInt8.toNat_zero] at hmem <;>
    omega

theorem FileName.zero_not_mem_ofText {s : String} (h : '\x00' ∉ s.toList) :
    0 ∉ (FileName.ofText s).bytes := by
  have hbytes : (FileName.ofText s).bytes = s.toList.flatMap String.utf8EncodeChar := by
    rw [ofText, ← String.ofList_toList (s := s), String.toByteArray_ofList]
    simp [List.utf8Encode]
  rw [hbytes, List.mem_flatMap]
  rintro ⟨c, hc, hmem⟩
  exact zero_not_mem_utf8EncodeChar (fun heq => h (heq ▸ hc)) hmem

namespace Cache

theorem Chance.name_not_mem (chance : Chance) (stem : String) (taken : List FileName) :
    chance.name stem taken ∉ taken := chance.fresh stem taken

theorem Chance.bytes_name (chance : Chance) (stem : String) (taken : List FileName) :
    (chance.name stem taken).bytes =
      (FileName.ofText stem).bytes ++ (FileName.ofText (chance.letters stem taken)).bytes :=
  FileName.bytes_append _ _

theorem Chance.size_name (chance : Chance) (stem : String) (taken : List FileName) :
    (FileName.ofText stem).size ≤ (chance.name stem taken).size := by
  unfold FileName.size
  rw [chance.bytes_name, List.length_append]
  omega

namespace Generation

/-! ## Names of generations -/

theorem toList_nameText (generation : UInt64) :
    (nameStem ++ toString generation.toNat).toList =
      nameStem.toList ++ Nat.toDigits 10 generation.toNat := by
  rw [String.toList_append, Nat.toString_eq_ofList_toDigits, String.toList_ofList]

theorem bytes_name (generation : UInt64) : (name generation).bytes =
    (FileName.ofText nameStem).bytes ++ (FileName.ofText (toString generation.toNat)).bytes :=
  FileName.bytes_append _ _

theorem zero_not_mem_name (generation : UInt64) : 0 ∉ (name generation).bytes := by
  apply FileName.zero_not_mem_ofText
  rw [toList_nameText, List.mem_append, not_or]
  refine ⟨by decide, fun hmem => ?_⟩
  exact absurd (Nat.isDigit_of_mem_toDigits (by decide) (by decide) hmem) (by decide)

theorem decimal?_toDigits (n : Nat) : decimal? (Nat.toDigits 10 n) = some n := by
  have hne : Nat.toDigits 10 n ≠ [] := Nat.toDigits_ne_nil
  have hdigits : (Nat.toDigits 10 n).all Char.isDigit = true := by
    rw [List.all_eq_true]
    intro c hc
    exact Nat.isDigit_of_mem_toDigits (by decide) (by decide) hc
  have hvalue : (Nat.toDigits 10 n).foldl (fun n c => 10 * n + (c.toNat - '0'.toNat)) 0 = n := by
    rw [← Nat.ofDigitChars_eq_foldl]
    exact Nat.ofDigitChars_ten_toDigits
  unfold decimal?
  split
  · contradiction
  · rw [if_pos hdigits, hvalue]

theorem number?_of_decimal? {cs : List Char} {n : Nat} (hplus : '+' ∉ cs)
    (h : decimal? cs = some n) (hn : n < UInt64.size) : number? cs = some n.toUInt64 := by
  cases cs with
  | nil => simp [decimal?] at h
  | cons c cs =>
    have hc : c ≠ '+' := by
      rintro rfl
      exact hplus List.mem_cons_self
    simp [number?, hc, h, hn]

theorem ofName?_name (generation : UInt64) : ofName? (name generation) = some generation := by
  have hplus : '+' ∉ Nat.toDigits 10 generation.toNat := by
    intro hmem
    exact absurd (Nat.isDigit_of_mem_toDigits (by decide) (by decide) hmem) (by decide)
  have hnumber := number?_of_decimal? hplus (decimal?_toDigits _) generation.toNat_lt
  unfold ofName? name
  rw [FileName.text?_ofText, Option.bind_some, ofText?, toList_nameText, if_pos (by simp),
    ← String.length_toList, List.drop_left, hnumber]
  simp

theorem name_inj {g h : UInt64} (heq : name g = name h) : g = h := by
  have := ofName?_name g
  rw [heq, ofName?_name] at this
  exact (Option.some.inj this).symm

/-- A name that starts like that of a generation is none that starts otherwise. -/
theorem name_ne_of_head {generation : UInt64} {other : FileName}
    (h : other.bytes.head? ≠ some 0x67) : name generation ≠ other := by
  rintro rfl
  apply h
  rw [bytes_name]
  rfl

theorem isName_name (generation : UInt64) : Path.IsName (name generation) :=
  ⟨name_ne_of_head (by decide), name_ne_of_head (by decide), name_ne_of_head (by decide)⟩

theorem name_ne_entry (generation : UInt64) (s : Section) : name generation ≠ s.entry := by
  apply name_ne_of_head
  cases s <;> decide

theorem isStale_name (generation : UInt64) :
    isStale (some generation) (name generation) = false := by
  simp [isStale, ofName?_name]

theorem isStale_manifest (keep : Option UInt64) :
    isStale keep Section.manifest.entry = false := by
  have hname : ofName? Section.manifest.entry = none := by decide +kernel
  have hstaging : isStaging Section.manifest.entry = false := by decide +kernel
  simp [isStale, hname, hstaging]

theorem isStale_none {keep : Option UInt64} {s : FileName} (h : isStale keep s = true) :
    isStale none s = true := by
  unfold isStale at h ⊢
  cases hs : ofName? s with
  | some generation => simp
  | none => simpa [hs] using h

theorem isName_of_isStale {keep : Option UInt64} {s : FileName} (h : isStale keep s = true) :
    Path.IsName s := by
  refine ⟨?_, ?_, ?_⟩
  · rintro rfl
    cases h
  · rintro rfl
    cases h
  · rintro rfl
    cases h

/-! ## Hidden names -/

/-- A dot stands in front, and no second one behind it. -/
def IsHidden (s : FileName) : Prop := ∃ b rest, s.bytes = 0x2e :: b :: rest ∧ b ≠ 0x2e

theorem isHidden_staging (chance : Chance) (taken : List FileName) :
    IsHidden (chance.name stagingStem taken) :=
  ⟨_, _, chance.bytes_name _ _, by decide⟩

theorem isHidden_temporary (chance : Chance) (taken : List FileName) :
    IsHidden (chance.name temporaryStem taken) :=
  ⟨_, _, chance.bytes_name _ _, by decide⟩

theorem IsHidden.ne_of_bytes {s t : FileName} (h : IsHidden s)
    (ht : t.bytes.head? ≠ some 0x2e ∨ t.bytes.tail = [] ∨ t.bytes.tail.head? = some 0x2e) :
    s ≠ t := by
  obtain ⟨b, rest, hs, hb⟩ := h
  rintro rfl
  rw [hs] at ht
  simp [hb] at ht

theorem IsHidden.isName {s : FileName} (h : IsHidden s) : Path.IsName s :=
  ⟨h.ne_of_bytes (by decide), h.ne_of_bytes (by decide), h.ne_of_bytes (by decide)⟩

theorem IsHidden.ne_entry {s : FileName} (h : IsHidden s) (t : Section) : s ≠ t.entry := by
  apply h.ne_of_bytes
  cases t <;> decide

theorem IsHidden.ne_name {s : FileName} (h : IsHidden s) (generation : UInt64) :
    s ≠ name generation := by
  apply h.ne_of_bytes
  left
  rw [bytes_name]
  exact nofun

theorem isName_entry (s : Section) : Path.IsName s.entry := by
  unfold Path.IsName
  cases s <;> decide

/-! ## The latest generation -/

theorem left_le_max (a b : UInt64) : a ≤ max a b := by
  show a ≤ if a ≤ b then b else a
  split_ifs with h
  · exact h
  · exact UInt64.le_refl a

theorem right_le_max (a b : UInt64) : b ≤ max a b := by
  show b ≤ if a ≤ b then b else a
  split_ifs with h
  · exact UInt64.le_refl b
  · exact (UInt64.le_total a b).resolve_left h

theorem le_foldl_max (generations : List UInt64) (first : UInt64) :
    first ≤ generations.foldl max first ∧
      ∀ generation ∈ generations, generation ≤ generations.foldl max first := by
  induction generations generalizing first with
  | nil => exact ⟨UInt64.le_refl first, fun _ h => absurd h List.not_mem_nil⟩
  | cons generation generations ih =>
    obtain ⟨hfirst, hrest⟩ := ih (max first generation)
    rw [List.foldl_cons]
    refine ⟨UInt64.le_trans (left_le_max _ _) hfirst, fun g hg => ?_⟩
    rcases List.mem_cons.mp hg with rfl | hg
    · exact UInt64.le_trans (right_le_max _ _) hfirst
    · exact hrest g hg

theorem le_latest {files : FileSystem} {base : Path} {names : List FileName} {s : FileName}
    {generation : UInt64} (hs : s ∈ names) (h : ofName? s = some generation) :
    generation ≤ latest files base names := by
  unfold latest
  apply (le_foldl_max _ _).2
  exact List.mem_filterMap.mpr ⟨s, hs, h⟩

theorem live_le_latest {files : FileSystem} {base : Path} {names : List FileName}
    {m : Manifest}
    (h : readManifest files base = .ok (some m)) : m.generation ≤ latest files base names := by
  unfold latest
  rw [h]
  exact (le_foldl_max _ _).1

end Generation

end Cache

end PluginRegistry
