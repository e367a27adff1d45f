import PluginRegistry.Cache.Header
import PluginRegistry.Proofs.Numbers

/-!
# Which bytes a header check accepts

The bytes that `unwrap` accepts for a section are exactly those that `wrap` makes for it, so no
bytes are accepted for two sections. All others are refused with the first fault there is: bytes
that are too short or start differently come before the version, and the version comes before the
tag (`unwrap_accepts_exactly`). For this the bytes are cut into what a header says: version, tag,
body (`HasHeader`).
-/

namespace PluginRegistry.Cache

variable {s : Section} {bytes tag body : Bytes} {version : UInt32}

/-- The bytes are a header with this version and this tag, and this body behind it. -/
structure HasHeader (bytes : Bytes) (version : UInt32) (tag body : Bytes) : Prop where
  bytes_eq : bytes = magic ++ Wire.littleEndian 4 version.toNat ++ tag ++ body
  length_tag : tag.length = 4

theorem wrap_eq_iff : bytes = wrap s body ↔ HasHeader bytes formatVersion s.tag body :=
  ⟨fun h => ⟨h, s.length_tag⟩, fun h => h.bytes_eq⟩

theorem unwrap_of_no_header (h : bytes.length < headerSize ∨ ¬magic <+: bytes) :
    unwrap s bytes = .error (.badHeader s) := by
  have hfault : (bytes.length < headerSize || bytes.take 8 ≠ magic) = true := by
    rw [Bool.or_eq_true, decide_eq_true_iff, decide_eq_true_iff]
    exact h.imp_right fun hmagic htake => hmagic (htake ▸ List.take_prefix 8 bytes)
  exact if_pos hfault

/-- All other bytes have a header. -/
theorem missing_or_hasHeader (bytes : Bytes) : (bytes.length < headerSize ∨ ¬magic <+: bytes) ∨
    ∃ version tag body, HasHeader bytes version tag body := by
  rw [Classical.or_iff_not_imp_left, not_or, Nat.not_lt, Classical.not_not]
  rintro ⟨hlength, rest, rfl⟩
  have hrest : 8 ≤ rest.length := by
    have : magic.length = 8 := rfl
    rw [List.length_append, headerSize] at hlength
    omega
  have hfour : (rest.take 4).length = 4 := by rw [List.length_take]; omega
  have hlt : Wire.ofLittleEndian (rest.take 4) < UInt32.size := by
    simpa [hfour] using Wire.ofLittleEndian_lt (rest.take 4)
  have hversion : Wire.littleEndian 4 (Wire.ofLittleEndian (rest.take 4)) = rest.take 4 := by
    simpa [hfour] using Wire.littleEndian_ofLittleEndian (rest.take 4)
  refine ⟨(Wire.ofLittleEndian (rest.take 4)).toUInt32, (rest.drop 4).take 4, rest.drop 8, ?_, ?_⟩
  · rw [UInt32.toNat_ofNat_of_lt' hlt, hversion, List.append_assoc, List.append_assoc,
      ← List.append_assoc (rest.take 4), ← List.take_add, List.take_append_drop]
  · rw [List.length_take, List.length_drop]
    omega

namespace HasHeader

theorem parts (h : HasHeader bytes version tag body) :
    headerSize ≤ bytes.length ∧ bytes.take 8 = magic ∧
      (bytes.drop 8).take 4 = Wire.littleEndian 4 version.toNat ∧
      (bytes.drop 12).take 4 = tag ∧ bytes.drop headerSize = body := by
  obtain ⟨rfl, htag⟩ := h
  have hmagic : magic.length = 8 := rfl
  refine ⟨?_, ?_, ?_, ?_, ?_⟩
  · simp only [headerSize, List.length_append, Wire.length_littleEndian]
    omega
  all_goals simp [headerSize, hmagic, htag, List.drop_append, List.drop_of_length_le]

theorem not_missing (h : HasHeader bytes version tag body) :
    ¬(bytes.length < headerSize ∨ ¬magic <+: bytes) := by
  obtain ⟨hlength, hmagic, -⟩ := h.parts
  rintro (hshort | hother)
  · omega
  · exact hother (hmagic ▸ List.take_prefix 8 bytes)

theorem unique {version' : UInt32} {tag' body' : Bytes} (h : HasHeader bytes version tag body)
    (h' : HasHeader bytes version' tag' body') :
    version = version' ∧ tag = tag' ∧ body = body' := by
  obtain ⟨-, -, hversion, htag, hbody⟩ := h.parts
  obtain ⟨-, -, hversion', htag', hbody'⟩ := h'.parts
  have hvalue := congrArg Wire.ofLittleEndian (hversion.symm.trans hversion')
  rw [Wire.ofLittleEndian_littleEndian version.toNat_lt,
    Wire.ofLittleEndian_littleEndian version'.toNat_lt] at hvalue
  exact ⟨UInt32.toNat_inj.1 hvalue, htag.symm.trans htag', hbody.symm.trans hbody'⟩

theorem unwrap_eq (h : HasHeader bytes version tag body) : unwrap s bytes =
    if version ≠ formatVersion then .error (.versionMismatch s version)
    else if tag ≠ s.tag then .error (.badHeader s)
    else .ok body := by
  obtain ⟨hlength, hmagic, hversion, htag, hbody⟩ := h.parts
  have hvalue : (Wire.ofLittleEndian (Wire.littleEndian 4 version.toNat)).toUInt32 = version := by
    rw [Wire.ofLittleEndian_littleEndian version.toNat_lt]
    exact UInt32.ofNat_toNat
  have hgood : ¬(bytes.length < headerSize || bytes.take 8 ≠ magic) = true := by
    rw [Bool.or_eq_true, decide_eq_true_iff, decide_eq_true_iff]
    rintro (hshort | hother)
    · omega
    · exact hother hmagic
  unfold unwrap
  rw [if_neg hgood, hversion, hvalue, htag, hbody]

theorem accepted_iff {given : Bytes} (h : HasHeader bytes version tag body) :
    unwrap s bytes = .ok given ↔ version = formatVersion ∧ tag = s.tag ∧ given = body := by
  rw [h.unwrap_eq]
  by_cases hversion : version = formatVersion
  · by_cases htag : tag = s.tag
    · simp [hversion, htag, eq_comm]
    · simp [hversion, htag]
  · simp [hversion]

theorem refused_iff {fault : Error} (h : HasHeader bytes version tag body) :
    unwrap s bytes = .error fault ↔
      version ≠ formatVersion ∧ fault = .versionMismatch s version ∨
        version = formatVersion ∧ tag ≠ s.tag ∧ fault = .badHeader s := by
  rw [h.unwrap_eq]
  by_cases hversion : version = formatVersion
  · by_cases htag : tag = s.tag
    · simp [hversion, htag]
    · simp [hversion, htag, eq_comm]
  · simp [hversion, eq_comm]

end HasHeader

theorem unwrap_eq_ok_iff : unwrap s bytes = .ok body ↔ bytes = wrap s body := by
  refine ⟨fun h => ?_, fun h => h ▸ unwrap_wrap s body⟩
  rcases missing_or_hasHeader bytes with hmissing | ⟨version, tag, own, hheader⟩
  · rw [unwrap_of_no_header hmissing] at h
    cases h
  · obtain ⟨rfl, rfl, rfl⟩ := hheader.accepted_iff.1 h
    exact wrap_eq_iff.2 hheader

/-- Bytes are accepted for a section exactly if they are a wrapped body of it, and so for one
section at most. Otherwise the fault is the header if the bytes are too short or start differently,
else the version if it is another one, whatever the tag, and else the header, for its tag. -/
theorem unwrap_accepts_exactly (s : Section) (bytes : Bytes) :
    (∀ body, unwrap s bytes = .ok body ↔ bytes = wrap s body) ∧
    (∀ t body other, unwrap s bytes = .ok body → unwrap t bytes = .ok other → t = s) ∧
    (∀ fault, unwrap s bytes = .error fault ↔
      (bytes.length < headerSize ∨ ¬magic <+: bytes) ∧ fault = .badHeader s ∨
      ∃ version tag body, HasHeader bytes version tag body ∧
        (version ≠ formatVersion ∧ fault = .versionMismatch s version ∨
          version = formatVersion ∧ tag ≠ s.tag ∧ fault = .badHeader s)) := by
  refine ⟨fun body => unwrap_eq_ok_iff, fun t body other hs ht => ?_, fun fault => ?_⟩
  · have hs := wrap_eq_iff.1 (unwrap_eq_ok_iff.1 hs)
    have ht := wrap_eq_iff.1 (unwrap_eq_ok_iff.1 ht)
    exact Section.tag_inj (ht.unique hs).2.1
  · rcases missing_or_hasHeader bytes with hmissing | ⟨version, tag, body, hheader⟩
    · rw [unwrap_of_no_header hmissing]
      constructor
      · rintro ⟨⟩
        exact .inl ⟨hmissing, rfl⟩
      · rintro (⟨-, rfl⟩ | ⟨version, tag, body, hheader, -⟩)
        · rfl
        · exact absurd hmissing hheader.not_missing
    · rw [hheader.refused_iff]
      constructor
      · exact fun hfault => .inr ⟨version, tag, body, hheader, hfault⟩
      · rintro (⟨hmissing, -⟩ | ⟨version', tag', body', hheader', hfault⟩)
        · exact absurd hmissing hheader.not_missing
        · obtain ⟨rfl, rfl, rfl⟩ := hheader.unique hheader'
          exact hfault

/-- Of two faults behind the first eight bytes the version counts. -/
example : unwrap .table (magic ++ [2, 1, 0, 0] ++ Section.main.tag ++ [7]) =
    .error (.versionMismatch .table 258) := rfl

end PluginRegistry.Cache
