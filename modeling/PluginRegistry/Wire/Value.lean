import PluginRegistry.Wire.Reader

/-!
# Numbers, texts, lists and options as bytes

A number is written seven bits a byte, lowest first, every byte but the last with its high bit set.
A text or a list is its length and its items; an optional value is a byte 0 or 1 and, after a 1,
the value. Reading is more liberal than writing: a number may be padded with zero groups up to the
most bytes its width allows. Each `run_…_append` says that reading what was written, with anything
behind it, gives the value back and leaves the rest.
-/

namespace PluginRegistry.Wire

/-! ## Writing -/

/-- The number, seven bits a byte. -/
def number (n : Nat) : Bytes :=
  if n < 128 then [n.toUInt8] else (n % 128 + 128).toUInt8 :: number (n / 128)
termination_by n
decreasing_by omega

def u32 (n : UInt32) : Bytes := number n.toNat

def u64 (n : UInt64) : Bytes := number n.toNat

def list {α : Type} (item : α → Bytes) (items : List α) : Bytes :=
  number items.length ++ items.flatMap item

def text (s : String) : Bytes :=
  number s.toUTF8.size ++ s.toUTF8.data.toList

def option {α : Type} (item : α → Bytes) : Option α → Bytes
  | none => [0]
  | some a => 1 :: item a

/-- The low `width` bytes of `n`, lowest first. -/
def littleEndian : (width n : Nat) → Bytes
  | 0, _ => []
  | width + 1, n => (n % 256).toUInt8 :: littleEndian width (n / 256)

/-- The number whose bytes, lowest first, these are. -/
def ofLittleEndian : Bytes → Nat
  | [] => 0
  | b :: rest => b.toNat + 256 * ofLittleEndian rest

/-! ## Reading -/

namespace Reader

/-- A number of at most `more + 1` bytes, the last possible one no larger than `top`. -/
def number (top : UInt8) : (more : Nat) → Reader Nat
  | 0 => do
    let b ← byte
    if b ≤ top then pure b.toNat else throw .unterminatedNumber
  | more + 1 => do
    let b ← byte
    if b < 128 then pure b.toNat
    else
      let high ← number top more
      pure (b.toNat - 128 + 128 * high)

/-- A number below 2^32, in at most five bytes. -/
def u32 : Reader UInt32 := do
  let n ← number 0x0f 4
  pure n.toUInt32

/-- A number below 2^64, in at most ten bytes. -/
def u64 : Reader UInt64 := do
  let n ← number 0x01 9
  pure n.toUInt64

/-- The length of a text or a list. -/
def length : Reader Nat := number 0x01 9

def list {α : Type} (item : Reader α) : Reader (List α) := do
  let n ← length
  times item n

def text : Reader String := do
  let n ← length
  let bytes ← take n
  match String.fromUTF8? ⟨bytes.toArray⟩ with
  | some s => pure s
  | none => throw .badText

def option {α : Type} (item : Reader α) : Reader (Option α) := do
  let b ← byte
  if b = 0 then pure none
  else if b = 1 then
    let a ← item
    pure (some a)
  else throw .badOption

/-- The number of an alternative; `pick` knows those that exist. -/
def tag {α : Type} (pick : Nat → Option α) : Reader α := do
  let n ← number 0x0f 4
  match pick n with
  | some a => pure a
  | none => throw .unknownTag

/-! ## Reading what was written -/

/-- How many numbers fit into `more + 1` bytes, the last one no larger than `top`. -/
def capacity (top : UInt8) : (more : Nat) → Nat
  | 0 => top.toNat + 1
  | more + 1 => 128 * capacity top more

theorem run_number_append {top : UInt8} {more n : Nat} (rest : Bytes) (ht : top.toNat < 128)
    (h : n < capacity top more) :
    (number top more).run (Wire.number n ++ rest) = .ok (n, rest) := by
  induction more generalizing n with
  | zero =>
    have hn : n < 128 := by simp only [capacity] at h; omega
    have hb : n.toUInt8.toNat = n := by simp; omega
    have hle : n.toUInt8 ≤ top := by
      rw [UInt8.le_iff_toNat_le, hb]
      exact Nat.le_of_lt_succ h
    rw [Wire.number, if_pos hn]
    simp only [number, List.singleton_append]
    rw [run_bind_ok (run_byte _ _), if_pos hle, run_pure, hb]
  | succ more ih =>
    by_cases hn : n < 128
    · have hb : n.toUInt8.toNat = n := by simp; omega
      have hlt : n.toUInt8 < 128 := by rw [UInt8.lt_iff_toNat_lt, hb]; exact hn
      rw [Wire.number, if_pos hn]
      simp only [number, List.singleton_append]
      rw [run_bind_ok (run_byte _ _), if_pos hlt, run_pure, hb]
    · have hb : (n % 128 + 128).toUInt8.toNat = n % 128 + 128 := by simp; omega
      have hlt : ¬(n % 128 + 128).toUInt8 < 128 := by
        rw [UInt8.lt_iff_toNat_lt, hb]
        simp
      have hq : n / 128 < capacity top more := by
        simp only [capacity] at h
        omega
      rw [Wire.number, if_neg hn]
      simp only [number, List.cons_append]
      rw [run_bind_ok (run_byte _ _), if_neg hlt, run_bind_ok (ih hq), run_pure, hb]
      congr 2
      omega

theorem run_u32_append (n : UInt32) (rest : Bytes) :
    u32.run (Wire.u32 n ++ rest) = .ok (n, rest) := by
  have h : n.toNat < capacity 0x0f 4 := n.toNat_lt
  simp only [u32, Wire.u32]
  rw [run_bind_ok (run_number_append rest (by decide) h), run_pure]
  simp

theorem run_u64_append (n : UInt64) (rest : Bytes) :
    u64.run (Wire.u64 n ++ rest) = .ok (n, rest) := by
  have h : n.toNat < capacity 0x01 9 := n.toNat_lt
  simp only [u64, Wire.u64]
  rw [run_bind_ok (run_number_append rest (by decide) h), run_pure]
  simp

theorem run_length_append {n : Nat} (h : n < UInt64.size) (rest : Bytes) :
    length.run (Wire.number n ++ rest) = .ok (n, rest) :=
  run_number_append rest (by decide) h

theorem run_list_append {α : Type} {item : Reader α} {write : α → Bytes} (items : List α)
    (rest : Bytes) (hn : items.length < UInt64.size)
    (h : ∀ a ∈ items, ∀ rest, item.run (write a ++ rest) = .ok (a, rest)) :
    (list item).run (Wire.list write items ++ rest) = .ok (items, rest) := by
  simp only [list, Wire.list, List.append_assoc]
  rw [run_bind_ok (run_length_append hn _), run_times_flatMap items rest h]

theorem run_text_append (s : String) (rest : Bytes) (hn : s.toUTF8.size < UInt64.size) :
    text.run (Wire.text s ++ rest) = .ok (s, rest) := by
  simp only [text, Wire.text, List.append_assoc]
  have hl : s.toUTF8.size = s.toUTF8.data.toList.length := by
    rw [Array.length_toList]; rfl
  rw [run_bind_ok (run_length_append hn _), hl, run_bind_ok (run_take_append _ rest)]
  have hs : String.fromUTF8? ⟨s.toUTF8.data.toList.toArray⟩ = some s := by
    have : (⟨s.toUTF8.data.toList.toArray⟩ : ByteArray) = s.toUTF8 := by simp
    rw [this]
    exact dif_pos s.isValidUTF8
  rw [hs]
  rfl

theorem run_option_append {α : Type} {item : Reader α} {write : α → Bytes} (a? : Option α)
    (rest : Bytes) (h : ∀ a ∈ a?, ∀ rest, item.run (write a ++ rest) = .ok (a, rest)) :
    (option item).run (Wire.option write a? ++ rest) = .ok (a?, rest) := by
  cases a? with
  | none => rfl
  | some a =>
    simp only [option, Wire.option, List.cons_append]
    rw [run_bind_ok (run_byte _ _), if_neg (by decide), if_pos rfl, run_bind_ok (h a rfl rest),
      run_pure]

end Reader

end PluginRegistry.Wire
