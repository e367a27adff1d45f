import Mathlib.Algebra.Group.Nat.Defs
import PluginRegistry.Wire.Value

/-!
# Numbers of a fixed width

Writing a number lowest byte first and reading bytes as a number are inverse to each other for the
numbers below 256 to the power of the width.
-/

namespace PluginRegistry.Wire

@[simp] theorem length_littleEndian (width n : Nat) : (littleEndian width n).length = width := by
  induction width generalizing n with
  | zero => rfl
  | succ width ih => simp [littleEndian, ih]

theorem ofLittleEndian_littleEndian {width n : Nat} (h : n < 256 ^ width) :
    ofLittleEndian (littleEndian width n) = n := by
  induction width generalizing n with
  | zero => simp_all [littleEndian, ofLittleEndian]
  | succ width ih =>
    have hhigh : n / 256 < 256 ^ width := Nat.div_lt_of_lt_mul (by rwa [Nat.pow_succ'] at h)
    have hlow : (n % 256).toUInt8.toNat = n % 256 := by simp
    rw [littleEndian, ofLittleEndian, ih hhigh, hlow]
    omega

theorem littleEndian_ofLittleEndian (bytes : Bytes) :
    littleEndian bytes.length (ofLittleEndian bytes) = bytes := by
  induction bytes with
  | nil => rfl
  | cons b rest ih =>
    have hb := b.toNat_lt
    have hlow : (b.toNat + 256 * ofLittleEndian rest) % 256 = b.toNat := by omega
    have hhigh : (b.toNat + 256 * ofLittleEndian rest) / 256 = ofLittleEndian rest := by omega
    rw [ofLittleEndian, List.length_cons, littleEndian, hlow, hhigh, ih]
    simp

theorem ofLittleEndian_lt (bytes : Bytes) : ofLittleEndian bytes < 256 ^ bytes.length := by
  induction bytes with
  | nil => exact Nat.one_pos
  | cons b rest ih =>
    have hb := b.toNat_lt
    rw [ofLittleEndian, List.length_cons, Nat.pow_succ']
    omega

theorem littleEndian_add (low high n : Nat) :
    littleEndian (low + high) n = littleEndian low n ++ littleEndian high (n / 256 ^ low) := by
  induction low generalizing n with
  | zero => simp [littleEndian]
  | succ low ih =>
    rw [Nat.add_right_comm, littleEndian, littleEndian, ih, Nat.div_div_eq_div_mul, Nat.pow_succ',
      List.cons_append]

end PluginRegistry.Wire
