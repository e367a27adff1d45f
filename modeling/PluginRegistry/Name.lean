/-!
# Qualified names

A qualified name is a namespace and a local name with a dot between them. Splitting goes at the
last dot: the namespace may hold dots, the local part holds none. `splitLastDot_eq_some_iff` says
exactly which splits `splitLastDot` makes.
-/

namespace PluginRegistry.Name

/-- The namespace `ns`, a dot, and the local name. -/
def qualify (ns localName : String) : String := ns ++ "." ++ localName

/-- The characters before and after the last dot. -/
def splitLastDot : List Char → Option (List Char × List Char)
  | [] => none
  | c :: cs =>
    match splitLastDot cs with
    | some (before, after) => some (c :: before, after)
    | none => if c = '.' then some ([], cs) else none

/-- The namespace and the local part of a name that has a dot. -/
def split? (name : String) : Option (String × String) :=
  (splitLastDot name.toList).map fun (before, after) => (String.ofList before, String.ofList after)

/-- What follows the last dot; the whole name when there is none. -/
def localPart (name : String) : String :=
  match split? name with
  | some (_, after) => after
  | none => name

/-- Whether a name already carries a namespace. -/
def isQualified (name : String) : Bool := name.toList.contains '.'

/-! ## Splitting at the last dot -/

theorem splitLastDot_eq_none_iff (cs : List Char) : splitLastDot cs = none ↔ '.' ∉ cs := by
  induction cs with
  | nil => simp [splitLastDot]
  | cons c cs ih =>
    cases h : splitLastDot cs with
    | some p => simp [splitLastDot, h, ← ih]
    | none =>
      have hn := ih.1 h
      by_cases hc : c = '.'
      · simp [splitLastDot, h, hc]
      · have hc' : '.' ≠ c := fun e => hc e.symm
        simp [splitLastDot, h, hc, hc', hn]

theorem splitLastDot_append (before after : List Char) (h : '.' ∉ after) :
    splitLastDot (before ++ '.' :: after) = some (before, after) := by
  induction before with
  | nil => simp [splitLastDot, (splitLastDot_eq_none_iff after).2 h]
  | cons c cs ih => simp [splitLastDot, ih]

theorem splitLastDot_eq_some_iff {cs before after : List Char} :
    splitLastDot cs = some (before, after) ↔ cs = before ++ '.' :: after ∧ '.' ∉ after := by
  refine ⟨fun h => ?_, fun ⟨h, hn⟩ => h ▸ splitLastDot_append before after hn⟩
  induction cs generalizing before with
  | nil => simp [splitLastDot] at h
  | cons c cs ih =>
    cases hs : splitLastDot cs with
    | some p =>
      simp only [splitLastDot, hs, Option.some.injEq, Prod.mk.injEq] at h
      obtain ⟨rfl, rfl⟩ := h
      obtain ⟨e, hn⟩ := @ih p.1 hs
      exact ⟨by rw [e]; rfl, hn⟩
    | none =>
      by_cases hc : c = '.'
      · simp only [splitLastDot, hs, hc, if_true, Option.some.injEq, Prod.mk.injEq] at h
        obtain ⟨rfl, rfl⟩ := h
        exact ⟨by simp [hc], (splitLastDot_eq_none_iff cs).1 hs⟩
      · simp [splitLastDot, hs, hc] at h

end PluginRegistry.Name
