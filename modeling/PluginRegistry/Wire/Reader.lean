/-!
# Reading values from bytes

A `Reader` takes a value from the front of a byte list and leaves the rest, or says what is wrong
with the bytes. Readers run one after the other, so the first problem wins. `run_bind_ok` is the
step by which a reader of several fields is followed through.
-/

namespace PluginRegistry

/-- A string of bytes. -/
abbrev Bytes := List UInt8

namespace Wire

/-- Why bytes are not the encoding of a value. -/
inductive Problem
  /-- The bytes end inside the value. -/
  | endOfInput
  /-- A number has too many bytes or is too large. -/
  | unterminatedNumber
  /-- The byte in front of an optional value is neither 0 nor 1. -/
  | badOption
  /-- A text is not UTF-8. -/
  | badText
  /-- A tag names no alternative. -/
  | unknownTag
  deriving DecidableEq, Repr

def Problem.text : Problem → String
  | .endOfInput => "Hit the end of buffer, expected more data"
  | .unterminatedNumber =>
    "Found a varint that didn't terminate. Is the usize too big for this platform?"
  | .badOption => "Found an Option discriminant that wasn't 0 or 1"
  | .badText => "Tried to parse invalid utf-8"
  | .unknownTag => "Serde Deserialization Error"

/-- A step that takes an `α` from the front of the bytes. -/
abbrev Reader (α : Type) := StateT Bytes (Except Problem) α

namespace Reader

/-- The value at the front of `bytes`; what follows it is ignored. -/
def value {α : Type} (r : Reader α) (bytes : Bytes) : Except Problem α :=
  match r.run bytes with
  | .ok (a, _) => .ok a
  | .error p => .error p

def byte : Reader UInt8 := fun bytes =>
  match bytes with
  | [] => .error .endOfInput
  | b :: rest => .ok (b, rest)

def take (n : Nat) : Reader Bytes := fun bytes =>
  if n ≤ bytes.length then .ok (bytes.take n, bytes.drop n) else .error .endOfInput

def times {α : Type} (r : Reader α) : Nat → Reader (List α)
  | 0 => pure []
  | n + 1 => do
    let a ← r
    let as ← times r n
    pure (a :: as)

/-! ## Running readers -/

theorem run_pure {α : Type} (a : α) (bytes : Bytes) :
    (pure a : Reader α).run bytes = .ok (a, bytes) := rfl

theorem run_bind_ok {α β : Type} {r : Reader α} {f : α → Reader β} {bytes rest : Bytes} {a : α}
    (h : r.run bytes = .ok (a, rest)) : (r >>= f).run bytes = (f a).run rest := by
  rw [StateT.run_bind, h]
  rfl

theorem run_byte (b : UInt8) (rest : Bytes) : byte.run (b :: rest) = .ok (b, rest) := rfl

theorem run_take_append (front rest : Bytes) :
    (take front.length).run (front ++ rest) = .ok (front, rest) := by
  simp [take, StateT.run]

theorem run_times_flatMap {α : Type} {r : Reader α} {write : α → Bytes} (items : List α)
    (rest : Bytes)
    (h : ∀ a ∈ items, ∀ rest, r.run (write a ++ rest) = .ok (a, rest)) :
    (times r items.length).run (items.flatMap write ++ rest) = .ok (items, rest) := by
  induction items with
  | nil => rfl
  | cons a items ih =>
    have ha := h a (by simp) (items.flatMap write ++ rest)
    have hi := ih fun b hb => h b (by simp [hb])
    simp only [List.flatMap_cons, List.length_cons, times, List.append_assoc]
    rw [run_bind_ok ha, run_bind_ok hi, run_pure]

end Reader

end Wire

end PluginRegistry
