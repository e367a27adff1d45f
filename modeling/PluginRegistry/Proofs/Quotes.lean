import Mathlib.Data.List.Basic
import PluginRegistry.Log

/-!
# Quoted texts

Reports quote texts that come from outside. A quoted text stands on one line and has no control
character in it, whatever was quoted (`Text.isInline_of_mem_quoted`), and two texts are quoted
differently (`Text.quoted_inj`). So a report says exactly what was quoted, and nothing that is
quoted looks like the report around it.
-/

namespace PluginRegistry

namespace Text

/-! ## Escapes of code points -/

theorem toDigits_ne_nil (n : Nat) : Nat.toDigits 16 n ≠ [] := by
  rw [Nat.toDigits_eq_if (by decide)]
  split <;> simp

theorem mem_toDigits {n : Nat} {c : Char} (h : c ∈ Nat.toDigits 16 n) :
    ∃ d : Fin 16, c = Nat.digitChar d := by
  induction n using Nat.strongRecOn with
  | _ n ih =>
    rw [Nat.toDigits_eq_if (by decide)] at h
    split at h
    · exact ⟨⟨n, by assumption⟩, List.mem_singleton.1 h⟩
    · rcases List.mem_append.1 h with h | h
      · exact ih (n / 16) (by omega) h
      · exact ⟨⟨n % 16, by omega⟩, List.mem_singleton.1 h⟩

theorem digitChar_inj {m n : Nat} (hm : m < 16) (hn : n < 16)
    (h : Nat.digitChar m = Nat.digitChar n) : m = n := by
  have hall : ∀ a b : Fin 16, Nat.digitChar a = Nat.digitChar b → a = b := by decide +kernel
  exact congrArg Fin.val (hall ⟨m, hm⟩ ⟨n, hn⟩ h)

theorem toDigits_inj {m n : Nat} (h : Nat.toDigits 16 m = Nat.toDigits 16 n) : m = n := by
  induction m using Nat.strongRecOn generalizing n with
  | _ m ih =>
    rw [Nat.toDigits_eq_if (by decide), Nat.toDigits_eq_if (b := 16) (n := n) (by decide)] at h
    split at h <;> rename_i hm <;> split at h <;> rename_i hn
    · exact digitChar_inj hm hn (List.singleton_inj.1 h)
    · -- the number with more digits has one at least before the last
      have h : [] ++ [_] = _ ++ [_] := h
      exact absurd (List.append_inj' h rfl).1.symm (toDigits_ne_nil _)
    · have h : _ ++ [_] = [] ++ [_] := h
      exact absurd (List.append_inj' h rfl).1 (toDigits_ne_nil _)
    · obtain ⟨hfront, hlast⟩ := List.append_inj' h rfl
      have hlast := digitChar_inj (Nat.mod_lt _ (by decide)) (Nat.mod_lt _ (by decide))
        (List.singleton_inj.1 hlast)
      have := ih (m / 16) (by omega) hfront
      omega

theorem append_cons_inj_of_end {x y s t : List Char} {c : Char} (hx : c ∉ x) (hy : c ∉ y)
    (h : x ++ c :: s = y ++ c :: t) : x = y ∧ s = t := by
  rcases List.append_eq_append_iff.1 h with ⟨z, rfl, hz⟩ | ⟨z, rfl, hz⟩
  · rcases List.cons_eq_append_iff.1 hz with ⟨rfl, hrest⟩ | ⟨z', rfl, -⟩
    · exact ⟨(List.append_nil x).symm, (List.cons_inj_right c).1 hrest.symm⟩
    · simp at hy
  · rcases List.cons_eq_append_iff.1 hz with ⟨rfl, hrest⟩ | ⟨z', rfl, -⟩
    · exact ⟨List.append_nil y, (List.cons_inj_right c).1 hrest⟩
    · simp at hx

/-! ## Characters between quotes -/

/-- The character that a letter behind a backslash stands for. -/
def lettered : Char → Char
  | 'n' => '\n'
  | 'r' => '\r'
  | 't' => '\t'
  | '0' => '\x00'
  | c => c

/-- How a character may be quoted. -/
inductive Quoting (c : Char) : List Char → Prop
  | plain (h : (0x20 ≤ c.toNat ∧ c.toNat ≤ 0x7e) ∨ isShown c) (hne : c ≠ '\\') : Quoting c [c]
  | letter (e : Char) (h : e ∈ ['"', '\\', 'n', 'r', 't', '0']) (hc : lettered e = c) :
    Quoting c ['\\', e]
  | codePoint : Quoting c (codePointEscape c)

theorem quoting_quotedChar (c : Char) : Quoting c (quotedChar c) := by
  unfold quotedChar
  split_ifs with hquote hbackslash hn hr ht h0 hascii hshown
  · exact .letter '"' (by decide) hquote.symm
  · exact .letter '\\' (by decide) hbackslash.symm
  · exact .letter 'n' (by decide) hn.symm
  · exact .letter 'r' (by decide) hr.symm
  · exact .letter 't' (by decide) ht.symm
  · exact .letter '0' (by decide) (Char.toNat_inj.1 h0.symm)
  · exact .plain (.inl (by simpa using hascii)) hbackslash
  · exact .plain (.inr (Bool.and_eq_true_iff.1 hshown).2) hbackslash
  · exact .codePoint

namespace Quoting

variable {c d : Char} {xs ys s t : List Char}

theorem ne_nil (h : Quoting c xs) : xs ≠ [] := by
  cases h <;> exact List.cons_ne_nil _ _

/-- No quoting is the beginning of another one. -/
theorem cancel (hc : Quoting c xs) (hd : Quoting d ys) (h : xs ++ s = ys ++ t) :
    c = d ∧ s = t := by
  have hbrace : ∀ n, '\x7d' ∉ Nat.toDigits 16 n := by
    intro n hmem
    obtain ⟨digit, hdigit⟩ := mem_toDigits hmem
    revert digit
    decide
  cases hc with
  | plain _ hc =>
    cases hd with
    | plain => exact List.cons_eq_cons.1 h
    | letter => exact absurd (List.cons_eq_cons.1 h).1 hc
    | codePoint => exact absurd (List.cons_eq_cons.1 h).1 hc
  | letter e he hc =>
    cases hd with
    | plain _ hd => exact absurd (List.cons_eq_cons.1 h).1.symm hd
    | letter e' _ hd =>
      obtain ⟨-, h⟩ := List.cons_eq_cons.1 h
      obtain ⟨rfl, hrest⟩ := List.cons_eq_cons.1 h
      exact ⟨hc.symm.trans hd, hrest⟩
    | codePoint =>
      obtain ⟨-, h⟩ := List.cons_eq_cons.1 h
      obtain ⟨rfl, -⟩ := List.cons_eq_cons.1 h
      exact absurd he (by decide)
  | codePoint =>
    cases hd with
    | plain _ hd => exact absurd (List.cons_eq_cons.1 h).1.symm hd
    | letter e he =>
      obtain ⟨-, h⟩ := List.cons_eq_cons.1 h
      obtain ⟨rfl, -⟩ := List.cons_eq_cons.1 h
      exact absurd he (by decide)
    | codePoint =>
      -- the digits end at the brace, which is none of them
      simp only [codePointEscape, List.append_assoc, List.singleton_append] at h
      have h := List.append_cancel_left h
      obtain ⟨hdigits, hrest⟩ := append_cons_inj_of_end (hbrace _) (hbrace _) h
      exact ⟨Char.toNat_inj.1 (toDigits_inj hdigits), hrest⟩

end Quoting

/-! ## Texts between quotes -/

theorem flatMap_quotedChar_inj {xs ys : List Char}
    (h : xs.flatMap quotedChar = ys.flatMap quotedChar) : xs = ys := by
  induction xs generalizing ys with
  | nil =>
    cases ys with
    | nil => rfl
    | cons y ys => exact absurd (List.append_eq_nil_iff.1 h.symm).1 (quoting_quotedChar y).ne_nil
  | cons x xs ih =>
    cases ys with
    | nil => exact absurd (List.append_eq_nil_iff.1 h).1 (quoting_quotedChar x).ne_nil
    | cons y ys =>
      obtain ⟨rfl, hrest⟩ := (quoting_quotedChar x).cancel (quoting_quotedChar y) h
      rw [ih hrest]

theorem quoted_inj {s t : String} : quoted s = quoted t ↔ s = t := by
  refine ⟨fun h => ?_, congrArg quoted⟩
  have h := String.ofList_injective h
  simp only [List.append_assoc] at h
  exact String.toList_inj.1 (flatMap_quotedChar_inj
    (List.append_cancel_right (List.append_cancel_left h)))

theorem quotedOption_inj {a b : Option String} : quotedOption a = quotedOption b ↔ a = b := by
  refine ⟨fun h => ?_, congrArg quotedOption⟩
  have hne : ∀ s, quotedOption none ≠ quotedOption (some s) := fun s h => by
    have h := congrArg String.toList h
    simp [quotedOption] at h
  cases a with
  | none =>
    cases b with
    | none => rfl
    | some t => exact absurd h (hne t)
  | some s =>
    cases b with
    | none => exact absurd h.symm (hne s)
    | some t =>
      simp only [quotedOption, String.append_left_inj, String.append_right_inj] at h
      rw [quoted_inj.1 h]

/-- The character ends no line and controls nothing. -/
def IsInline (c : Char) : Prop :=
  0x20 ≤ c.toNat ∧ ¬(0x7f ≤ c.toNat ∧ c.toNat < 0xa0) ∧ c ≠ '\u2028' ∧ c ≠ '\u2029'

theorem isInline_of_ascii {c : Char} (h : 0x20 ≤ c.toNat ∧ c.toNat ≤ 0x7e) : IsInline c := by
  refine ⟨h.1, by omega, ?_, ?_⟩ <;> rintro rfl <;> exact absurd h.2 (by decide)

theorem isInline_of_isShown {c : Char} (h : isShown c = true) : IsInline c := by
  have hlow : ∀ ranges ∈ shownRanges, ∀ range ∈ ranges, 0xa0 ≤ range.1 := by decide +kernel
  obtain ⟨ranges, hranges, h'⟩ := List.any_eq_true.1 h
  obtain ⟨range, hrange, hin⟩ := List.any_eq_true.1 h'
  have hrange := hlow ranges hranges range hrange
  simp only [Bool.and_eq_true, decide_eq_true_eq] at hin
  refine ⟨by omega, by omega, ?_, ?_⟩ <;> rintro rfl <;> exact absurd h (by decide +kernel)

theorem isInline_of_mem_quoted {s : String} {c : Char} (h : c ∈ (quoted s).toList) :
    IsInline c := by
  have hsigns : ∀ c ∈ ['"', '\\', 'n', 'r', 't', '0', 'u', '\x7b', '\x7d'], IsInline c := by
    intro c hc
    simp only [List.mem_cons, List.not_mem_nil, or_false] at hc
    rcases hc with rfl | rfl | rfl | rfl | rfl | rfl | rfl | rfl | rfl <;>
      exact isInline_of_ascii (by decide)
  have hdigits : ∀ d : Fin 16, 0x20 ≤ (Nat.digitChar d).toNat ∧ (Nat.digitChar d).toNat ≤ 0x7e := by
    decide +kernel
  simp only [quoted, String.toList_ofList, List.mem_append, List.mem_singleton,
    List.mem_flatMap] at h
  rcases h with (rfl | ⟨d, -, hc⟩) | rfl
  · exact hsigns _ (by decide)
  · have hd := quoting_quotedChar d
    generalize quotedChar d = xs at hc hd
    cases hd with
    | plain h =>
      rw [List.mem_singleton.1 hc]
      exact h.elim isInline_of_ascii isInline_of_isShown
    | letter e he =>
      rcases List.mem_cons.1 hc with rfl | hc
      · exact hsigns _ (by decide)
      · rw [List.mem_singleton.1 hc]
        exact hsigns e (List.mem_append_left _ he)
    | codePoint =>
      simp only [codePointEscape, List.mem_append] at hc
      rcases hc with (hc | hc) | hc
      · simp only [List.mem_cons, List.not_mem_nil, or_false] at hc
        rcases hc with rfl | rfl | rfl <;> exact hsigns _ (by decide)
      · obtain ⟨digit, rfl⟩ := mem_toDigits hc
        exact isInline_of_ascii (hdigits digit)
      · rw [List.mem_singleton.1 hc]
        exact hsigns _ (by decide)
  · exact hsigns _ (by decide)

end Text

end PluginRegistry
