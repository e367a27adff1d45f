import Mathlib.Data.List.Basic
import Mathlib.Data.List.Induction
import PluginRegistry.Digest.Blake3
import PluginRegistry.Fingerprint
import PluginRegistry.Proofs.Numbers

/-!
# What a fingerprint tells apart

The bytes that stand for the state of files have no marks between the records: a path that is
missing leaves its bytes and a zero, one that is present 24 bytes more, which may look like further
paths. Still two states of the files of one list have the same bytes only if they agree on every
file (`stateBytes_eq_iff`), so their fingerprints differ unless the first eight bytes of two digests
are the same.

The records are taken off from the end. The last two bytes of a time are zeros, whereas the path of
a file that is there ends with another byte before its zero: the end of the bytes shows whether the
last file is there, and then how long its record is.
-/

namespace PluginRegistry

open Wire (littleEndian littleEndian_add ofLittleEndian_littleEndian)

/-! ## Stamps -/

namespace FileStamp

variable {s s' : FileStamp}

/-- What counts of a stamp: the length, and the time if it is not before 1970. -/
def facts (s : FileStamp) : UInt64 × Nat := (s.length, s.modified.toNat)

/-- `s` can be the stamp of a file with this path: the path is not empty and has no zero byte, and
the time is not beyond the sixteen bytes less two. -/
structure Fits (s : FileStamp) (path : Bytes) : Prop where
  nonempty : path ≠ []
  no_zero : 0 ∉ path
  time_lt : s.modified.toNat < 2 ^ 112

@[simp] theorem length_bytes (s : FileStamp) : s.bytes.length = 24 := by simp [bytes]

theorem bytes_eq_iff (h : s.modified.toNat < 2 ^ 112) (h' : s'.modified.toNat < 2 ^ 112) :
    s.bytes = s'.bytes ↔ s.facts = s'.facts := by
  refine ⟨fun heq => ?_, fun heq => ?_⟩
  · obtain ⟨hlength, htime⟩ := List.append_inj heq (by simp)
    have hlength := congrArg Wire.ofLittleEndian hlength
    have htime := congrArg Wire.ofLittleEndian htime
    rw [ofLittleEndian_littleEndian s.length.toNat_lt,
      ofLittleEndian_littleEndian s'.length.toNat_lt] at hlength
    rw [ofLittleEndian_littleEndian (by omega), ofLittleEndian_littleEndian (by omega)] at htime
    exact Prod.ext (UInt64.toNat_inj.1 hlength) htime
  · obtain ⟨hlength, htime⟩ := Prod.ext_iff.1 heq
    rw [bytes, bytes, show s.length = s'.length from hlength,
      show s.modified.toNat = s'.modified.toNat from htime]

theorem exists_bytes_eq (h : s.modified.toNat < 2 ^ 112) : ∃ front, s.bytes = front ++ [0, 0] := by
  have hhigh : s.modified.toNat / 256 ^ 14 = 0 := Nat.div_eq_of_lt (by omega)
  refine ⟨littleEndian 8 s.length.toNat ++ littleEndian 14 s.modified.toNat, ?_⟩
  rw [bytes, littleEndian_add 14 2, hhigh, List.append_assoc]
  rfl

end FileStamp

/-! ## Records -/

section

variable {α : Type} [PathBytes α] {stamp stamp' : α → Option FileStamp} {path : α}
  {paths : List α} {s s' : FileStamp} {front front' : Bytes}

theorem stampBytes_of_missing (h : stamp path = none) :
    stampBytes stamp path = PathBytes.bytes path ++ [0] := by
  simp [stampBytes, h]

theorem stampBytes_of_present (h : stamp path = some s) :
    stampBytes stamp path = PathBytes.bytes path ++ [0] ++ s.bytes := by
  simp [stampBytes, h]

/-- The end of the bytes shows whether the last file is there. -/
theorem append_missing_ne_append_present (h : stamp path = none) (h' : stamp' path = some s)
    (hs : s.Fits (PathBytes.bytes path)) :
    front ++ stampBytes stamp path ≠ front' ++ stampBytes stamp' path := by
  intro heq
  obtain ⟨stampFront, hstamp⟩ := FileStamp.exists_bytes_eq hs.time_lt
  obtain ⟨pathFront, last, hpath⟩ := (List.eq_nil_or_concat _).resolve_left hs.nonempty
  rw [List.concat_eq_append] at hpath
  have hlast : last ≠ 0 := by
    rintro rfl
    exact hs.no_zero (by simp [hpath])
  rw [stampBytes_of_missing h, stampBytes_of_present h', hstamp, hpath] at heq
  simp only [List.append_assoc, List.singleton_append] at heq
  simp only [← List.append_assoc] at heq
  obtain ⟨-, hend⟩ := List.append_inj' heq rfl
  exact hlast (List.cons.inj hend).1

/-- The record of the last path can be taken off. -/
theorem append_stampBytes_inj (h : ∀ s ∈ stamp path, s.Fits (PathBytes.bytes path))
    (h' : ∀ s ∈ stamp' path, s.Fits (PathBytes.bytes path))
    (heq : front ++ stampBytes stamp path = front' ++ stampBytes stamp' path) :
    front = front' ∧ (stamp path).map FileStamp.facts = (stamp' path).map FileStamp.facts := by
  cases hstamp : stamp path with
  | none =>
    cases hstamp' : stamp' path with
    | none =>
      rw [stampBytes_of_missing hstamp, stampBytes_of_missing hstamp'] at heq
      exact ⟨List.append_cancel_right heq, rfl⟩
    | some s' => exact absurd heq (append_missing_ne_append_present hstamp hstamp' (h' s' hstamp'))
  | some s =>
    cases hstamp' : stamp' path with
    | none => exact absurd heq.symm (append_missing_ne_append_present hstamp' hstamp (h s hstamp))
    | some s' =>
      rw [stampBytes_of_present hstamp, stampBytes_of_present hstamp', ← List.append_assoc front,
        ← List.append_assoc front'] at heq
      obtain ⟨heq, hbytes⟩ := List.append_inj' heq (by simp)
      have hfacts := (FileStamp.bytes_eq_iff (h s hstamp).time_lt (h' s' hstamp').time_lt).1 hbytes
      exact ⟨List.append_cancel_right heq, congrArg some hfacts⟩

theorem stampBytes_congr (h : ∀ s ∈ stamp path, s.Fits (PathBytes.bytes path))
    (h' : ∀ s ∈ stamp' path, s.Fits (PathBytes.bytes path))
    (heq : (stamp path).map FileStamp.facts = (stamp' path).map FileStamp.facts) :
    stampBytes stamp path = stampBytes stamp' path := by
  cases hstamp : stamp path with
  | none =>
    rw [hstamp] at heq
    have hstamp' : stamp' path = none := Option.map_eq_none_iff.1 heq.symm
    rw [stampBytes_of_missing hstamp, stampBytes_of_missing hstamp']
  | some s =>
    rw [hstamp] at heq
    obtain ⟨s', hstamp', hfacts⟩ := Option.map_eq_some_iff.1 heq.symm
    rw [stampBytes_of_present hstamp, stampBytes_of_present hstamp',
      (FileStamp.bytes_eq_iff (h s hstamp).time_lt (h' s' hstamp').time_lt).2 hfacts.symm]

/-! ## Lists of files -/

theorem stateBytes_eq_iff
    (h : ∀ path ∈ paths, ∀ s ∈ stamp path, s.Fits (PathBytes.bytes path))
    (h' : ∀ path ∈ paths, ∀ s ∈ stamp' path, s.Fits (PathBytes.bytes path)) :
    stateBytes stamp paths = stateBytes stamp' paths ↔
      ∀ path ∈ paths, (stamp path).map FileStamp.facts = (stamp' path).map FileStamp.facts := by
  refine ⟨fun heq => ?_, fun hall => ?_⟩
  · -- from the end: only there a record shows where it begins
    induction paths using List.reverseRecOn with
    | nil => simp
    | append_singleton paths path ih =>
      simp only [stateBytes, List.flatMap_append, List.flatMap_singleton] at heq
      obtain ⟨hfront, hlast⟩ := append_stampBytes_inj (h path (by simp)) (h' path (by simp)) heq
      have hrest := ih (fun p hp => h p (by simp [hp])) (fun p hp => h' p (by simp [hp])) hfront
      intro p hp
      rcases List.mem_append.1 hp with hp | hp
      · exact hrest p hp
      · rwa [List.mem_singleton.1 hp]
  · exact List.flatMap_congr fun path hpath =>
      stampBytes_congr (h path hpath) (h' path hpath) (hall path hpath)

/-- The digests of two byte strings begin with the same eight bytes. -/
def DigestFunction.Collides (digest : DigestFunction) (bytes bytes' : Bytes) : Prop :=
  bytes ≠ bytes' ∧ (digest bytes).head = (digest bytes').head

/-- If two states differ in a listed file, in whether it is there, its length or its time, then
what is digested differs, and only then; so the fingerprints differ, unless the first eight bytes of
the two digests are the same. -/
theorem fingerprint_separates (digest : DigestFunction)
    (h : ∀ path ∈ paths, ∀ s ∈ stamp path, s.Fits (PathBytes.bytes path))
    (h' : ∀ path ∈ paths, ∀ s ∈ stamp' path, s.Fits (PathBytes.bytes path)) :
    (stateBytes stamp paths ≠ stateBytes stamp' paths ↔ ∃ path ∈ paths,
      (stamp path).map FileStamp.facts ≠ (stamp' path).map FileStamp.facts) ∧
    ((∃ path ∈ paths, (stamp path).map FileStamp.facts ≠ (stamp' path).map FileStamp.facts) →
      fingerprint digest stamp paths ≠ fingerprint digest stamp' paths ∨
        digest.Collides (stateBytes stamp paths) (stateBytes stamp' paths)) := by
  have hiff : stateBytes stamp paths ≠ stateBytes stamp' paths ↔ ∃ path ∈ paths,
      (stamp path).map FileStamp.facts ≠ (stamp' path).map FileStamp.facts := by
    rw [ne_eq, stateBytes_eq_iff h h']
    push Not
    rfl
  refine ⟨hiff, fun hdiffer => ?_⟩
  by_cases hsame : fingerprint digest stamp paths = fingerprint digest stamp' paths
  · exact .inr ⟨hiff.2 hdiffer, hsame⟩
  · exact .inl hsame

end

/-! ## Two files that take turns -/

def sampleFirst (path : Bytes) : Option FileStamp := if path = [97] then some ⟨5, 7⟩ else none

/-- The file `b` is there instead, with the same length and time. -/
def sampleSecond (path : Bytes) : Option FileStamp := if path = [98] then some ⟨5, 7⟩ else none

/-- The bytes are equally many; the first is listed twice, and a path that is empty is missing. -/
theorem fingerprint_separates_sample :
    stateBytes sampleFirst [[97], [], [98], [97], [98]] ≠
      stateBytes sampleSecond [[97], [], [98], [97], [98]] ∧
    (fingerprint Blake3.digest sampleFirst [[97], [], [98], [97], [98]] ≠
        fingerprint Blake3.digest sampleSecond [[97], [], [98], [97], [98]] ∨
      DigestFunction.Collides Blake3.digest
        (stateBytes sampleFirst [[97], [], [98], [97], [98]])
        (stateBytes sampleSecond [[97], [], [98], [97], [98]])) := by
  have hfits : ∀ s : FileStamp, s = ⟨5, 7⟩ → ∀ path : Bytes, path = [97] ∨ path = [98] →
      s.Fits path := by
    rintro s rfl path (rfl | rfl)
    · exact ⟨by decide, by decide, by decide⟩
    · exact ⟨by decide, by decide, by decide⟩
  have hfirst : ∀ path ∈ [[97], [], [98], [97], [98]], ∀ s ∈ sampleFirst path,
      s.Fits (PathBytes.bytes path) := by
    intro path _ s hs
    obtain ⟨hpath, hs⟩ := Option.ite_none_right_eq_some.1 hs
    exact hfits s (Option.some.inj hs).symm path (.inl hpath)
  have hsecond : ∀ path ∈ [[97], [], [98], [97], [98]], ∀ s ∈ sampleSecond path,
      s.Fits (PathBytes.bytes path) := by
    intro path _ s hs
    obtain ⟨hpath, hs⟩ := Option.ite_none_right_eq_some.1 hs
    exact hfits s (Option.some.inj hs).symm path (.inr hpath)
  obtain ⟨hiff, hfingerprint⟩ := fingerprint_separates Blake3.digest hfirst hsecond
  have hdiffer : ∃ path ∈ [[97], [], [98], [97], [98]],
      (sampleFirst path).map FileStamp.facts ≠ (sampleSecond path).map FileStamp.facts :=
    ⟨[97], by decide, by decide⟩
  exact ⟨hiff.2 hdiffer, hfingerprint hdiffer⟩

end PluginRegistry
