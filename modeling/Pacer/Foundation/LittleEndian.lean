import Mathlib.Algebra.Ring.Nat
import Pacer.Foundation.ByteFile

/-!
# Little-endian fields

The little-endian bytes of a number at a fixed width, and the number a list of
bytes spells.  The two directions cancel on values that fit the width.
-/

namespace Pacer
namespace Foundation

namespace LittleEndian

def toBytes : Nat -> Nat -> Bytes
  | 0, _ => []
  | width + 1, n => UInt8.ofNat n :: toBytes width (n / 256)

def ofBytes : Bytes -> Nat
  | [] => 0
  | b :: rest => b.toNat + 256 * ofBytes rest

@[simp] theorem length_toBytes (width n : Nat) :
    (toBytes width n).length = width := by
  induction width generalizing n with
  | zero => rfl
  | succ width ih => simp [toBytes, ih]

theorem ofBytes_toBytes {width n : Nat} (h : n < 256 ^ width) :
    ofBytes (toBytes width n) = n := by
  induction width generalizing n with
  | zero =>
    have hn : n = 0 := by simpa using h
    simp [toBytes, ofBytes, hn]
  | succ width ih =>
    have hdiv : n / 256 < 256 ^ width := by
      apply Nat.div_lt_of_lt_mul
      rw [Nat.mul_comm, ← Nat.pow_succ]
      exact h
    have hlow : (UInt8.ofNat n).toNat = n % 256 := by simp
    rw [toBytes, ofBytes, ih hdiv, hlow]
    exact Nat.mod_add_div n 256

theorem toBytes_ofBytes {width : Nat} {bytes : Bytes}
    (h : bytes.length = width) :
    toBytes width (ofBytes bytes) = bytes ∧ ofBytes bytes < 256 ^ width := by
  induction bytes generalizing width with
  | nil =>
    cases h
    exact ⟨rfl, Nat.one_pos⟩
  | cons b rest ih =>
    cases h
    rcases ih rfl with ⟨hrest, hlt⟩
    have hb : b.toNat < 256 := b.toNat_lt
    have hdiv : (b.toNat + 256 * ofBytes rest) / 256 = ofBytes rest := by
      lia
    constructor
    · rw [List.length_cons, toBytes, ofBytes, hdiv, hrest]
      congr 1
      apply UInt8.toNat_inj.mp
      simp
    · rw [List.length_cons, ofBytes, Nat.pow_succ]
      lia

end LittleEndian

end Foundation
end Pacer
