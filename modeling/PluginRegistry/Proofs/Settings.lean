import Mathlib.Data.List.Nodup
import PluginRegistry.Settings

/-!
# What a document sets

A document is accepted if it names options only, each of them once and with a value of its kind
(`Settings.exists_ofText_iff`). Options are set independently of each other, so nothing depends on
the order of the keys (`Settings.ofText_perm`).
-/

namespace PluginRegistry.Settings

variable {read read' : DocumentReader} {document document' : String}
  {entries entries' : List (String × Value)}

theorem isSome_set? (s s' : Settings) (key : String) (value : Value) :
    (s.set? key value).isSome = (s'.set? key value).isSome := by
  unfold set?
  split <;> rfl

theorem set?_comm (s : Settings) {key key' : String} (hne : key ≠ key') (value value' : Value) :
    ((s.set? key value).bind fun t => t.set? key' value') =
      (s.set? key' value').bind fun t => t.set? key value := by
  unfold set?
  split <;> split <;> first | rfl | exact absurd rfl hne

theorem setAll?_perm (h : entries.Perm entries') (hkeys : (entries.map (·.1)).Nodup)
    (s : Settings) : s.setAll? entries = s.setAll? entries' := by
  induction h generalizing s with
  | nil => rfl
  | cons entry _ ih =>
    rw [List.map_cons, List.nodup_cons] at hkeys
    exact Option.bind_congr fun t _ => ih hkeys.2 t
  | swap a b rest =>
    have hne : b.1 ≠ a.1 := fun heq => by simp [heq] at hkeys
    have hcomm := s.set?_comm hne b.2 a.2
    show ((s.set? b.1 b.2).bind fun t => (t.set? a.1 a.2).bind fun u => u.setAll? rest) =
      (s.set? a.1 a.2).bind fun t => (t.set? b.1 b.2).bind fun u => u.setAll? rest
    rw [← Option.bind_assoc, ← Option.bind_assoc, hcomm]
  | trans h _ ih ih' =>
    exact (ih hkeys s).trans (ih' ((h.map _).nodup_iff.1 hkeys) s)

theorem isSome_setAll? (s : Settings) : (s.setAll? entries).isSome ↔
    ∀ entry ∈ entries, (({} : Settings).set? entry.1 entry.2).isSome := by
  induction entries generalizing s with
  | nil => simp [setAll?]
  | cons entry rest ih =>
    rw [List.forall_mem_cons, isSome_set? {} s]
    show ((s.set? entry.1 entry.2).bind fun t => t.setAll? rest).isSome ↔ _
    cases s.set? entry.1 entry.2 with
    | none => simp
    | some t => simp [ih]

theorem exists_ofText_iff : (∃ s, ofText read document = .ok s) ↔ ∃ entries,
    read document = some entries ∧ (entries.map (·.1)).Nodup ∧
      ∀ entry ∈ entries, (({} : Settings).set? entry.1 entry.2).isSome := by
  unfold ofText
  cases read document with
  | none => simp
  | some entries =>
    simp only [Option.some.injEq, exists_eq_left', ← isSome_setAll? {}]
    by_cases hnodup : (entries.map (·.1)).Nodup
    · cases ({} : Settings).setAll? entries <;> simp [hnodup]
    · simp [hnodup]

theorem ofText_perm (h : read document = some entries) (h' : read' document' = some entries')
    (hperm : entries.Perm entries') : ofText read document = ofText read' document' := by
  have hkeys := (hperm.map Prod.fst).nodup_iff
  simp only [ofText, h, h']
  by_cases hnodup : (entries.map Prod.fst).Nodup
  · rw [if_pos hnodup, if_pos (hkeys.1 hnodup), setAll?_perm hperm hnodup]
  · rw [if_neg hnodup, if_neg (mt hkeys.2 hnodup)]

end PluginRegistry.Settings
