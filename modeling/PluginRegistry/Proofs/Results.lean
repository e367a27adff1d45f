import Mathlib.Data.List.Forall2
import Mathlib.Logic.Basic

/-!
# Computations that can fail

What follows for the steps of a computation in `Except` from the answer it gives in the end.
-/

namespace PluginRegistry

section

variable {ε α β : Type} {b : β}

theorem of_bind_ok {x : Except ε α} {f : α → Except ε β} (h : x >>= f = .ok b) :
    ∃ a, x = .ok a ∧ f a = .ok b := by
  cases x with
  | error e => cases h
  | ok a => exact ⟨a, rfl, h⟩

theorem bind_ne_error {e : ε} {x : Except ε α} {f : α → Except ε β} (hx : x ≠ .error e)
    (hf : ∀ a, x = .ok a → f a ≠ .error e) : x >>= f ≠ .error e := by
  cases x with
  | error other => exact fun h => hx (by cases h; rfl)
  | ok a => exact hf a rfl

theorem of_guard_ok {c : Prop} [Decidable c] {e : ε} {f : Unit → Except ε β}
    (h : (if c then throw e >>= f else f ()) = .ok b) : ¬c ∧ f () = .ok b := by
  rcases ite_eq_iff.1 h with ⟨-, h⟩ | h
  · cases h
  · exact h

theorem of_check_ok {c : Prop} [Decidable c] {x : Except ε Unit} {f : Unit → Except ε β}
    (h : (if c then x >>= f else f ()) = .ok b) : f () = .ok b := by
  rcases ite_eq_iff.1 h with ⟨-, h⟩ | ⟨-, h⟩
  · obtain ⟨⟨⟩, -, h⟩ := of_bind_ok h
    exact h
  · exact h

theorem of_toOption_ok {x : Except ε β} (h : x.toOption = some b) : x = .ok b := by
  cases x with
  | error e => cases h
  | ok a => exact congrArg Except.ok (Option.some.inj h)

theorem ok_of_map {f : α → β} {x : Except ε α} (h : x.map f = .ok b) :
    ∃ a, x = .ok a ∧ f a = b := by
  cases x with
  | error _ => cases h
  | ok a => exact ⟨a, rfl, Except.ok.inj h⟩

theorem error_of_map {f : α → β} {x : Except ε α} {e : ε} (h : x.map f = .error e) :
    x = .error e := by
  cases x with
  | error _ => exact congrArg Except.error (Except.error.inj h)
  | ok _ => cases h

theorem forall₂_of_mapM {f : α → Except ε β} {as : List α} {bs : List β}
    (h : as.mapM f = .ok bs) : List.Forall₂ (fun a b => f a = .ok b) as bs := by
  induction as generalizing bs with
  | nil =>
    cases h
    exact .nil
  | cons a as ih =>
    rw [List.mapM_cons] at h
    obtain ⟨b, hb, h⟩ := of_bind_ok h
    obtain ⟨rest, hrest, h⟩ := of_bind_ok h
    cases h
    exact .cons hb (ih hrest)

theorem exists_of_mem_mapM {f : α → Except ε β} {as : List α} {bs : List β}
    (h : as.mapM f = .ok bs) (hb : b ∈ bs) : ∃ a ∈ as, f a = .ok b := by
  obtain ⟨i, hi, rfl⟩ := List.mem_iff_getElem.1 hb
  have hall := List.forall₂_iff_get.1 (forall₂_of_mapM h)
  have hi' : i < as.length := hall.1 ▸ hi
  exact ⟨as[i], List.getElem_mem _, hall.2 i hi' hi⟩

end

section

variable {ε α : Type} {keep : α → Except ε Bool} {a : α}

theorem mem_of_filterAuxM {as kept bs : List α} (h : as.filterAuxM keep kept = .ok bs)
    (ha : a ∈ bs) : a ∈ as ∨ a ∈ kept := by
  induction as generalizing kept with
  | nil =>
    cases h
    exact .inr ha
  | cons first as ih =>
    obtain ⟨b, -, h⟩ := of_bind_ok h
    cases b with
    | true =>
      rcases ih h with hmem | hmem
      · exact .inl (List.mem_cons_of_mem _ hmem)
      · rcases List.mem_cons.1 hmem with rfl | hmem
        · exact .inl List.mem_cons_self
        · exact .inr hmem
    | false => exact (ih h).imp_left (List.mem_cons_of_mem _)

theorem mem_of_filterM {as bs : List α} (h : as.filterM keep = .ok bs) (ha : a ∈ bs) : a ∈ as := by
  obtain ⟨kept, hkept, h⟩ := of_bind_ok h
  cases h
  exact (mem_of_filterAuxM hkept (List.mem_reverse.1 ha)).resolve_right List.not_mem_nil

end

end PluginRegistry
