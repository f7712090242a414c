import Pacer.Cache.SlotHeader
import Pacer.Foundation.Digest
import Mathlib.Data.Nat.Bitwise

/-!
# Joining CRC-32 digests

One byte of a CRC-32 is linear in the state, so a digest of joined bytes is the
first one moved on by the length of the second, with the second one added.
-/

namespace Pacer
namespace Cache

open Foundation

def crcBit (c : UInt32) : UInt32 :=
  if c &&& 1 = 1 then (c >>> 1) ^^^ 0xEDB88320 else c >>> 1

def crcCombine (first second : UInt32) (amount : Nat) : UInt32 :=
  second ^^^ Nat.iterate (fun c => crcByte c 0) amount first

theorem and_one_eq_one_iff (c : UInt32) :
    c &&& 1 = 1 <-> c.toNat % 2 = 1 := by
  rw [← UInt32.toNat_inj, UInt32.toNat_and, UInt32.toNat_one,
    Nat.and_one_is_mod]

theorem crcBit_xor (x y : UInt32) :
    crcBit (x ^^^ y) = crcBit x ^^^ crcBit y := by
  have hparity : (x ^^^ y).toNat % 2 = (x.toNat + y.toNat) % 2 := by
    rw [UInt32.toNat_xor, Nat.xor_mod_two_eq]
  unfold crcBit
  simp only [and_one_eq_one_iff, hparity, UInt32.shiftRight_xor]
  rcases Nat.mod_two_eq_zero_or_one x.toNat with hx | hx
  · rcases Nat.mod_two_eq_zero_or_one y.toNat with hy | hy
    · rw [if_neg (by lia), if_neg (by lia), if_neg (by lia)]
    · rw [if_pos (by lia), if_neg (by lia), if_pos hy, UInt32.xor_assoc]
  · rcases Nat.mod_two_eq_zero_or_one y.toNat with hy | hy
    · rw [if_pos (by lia), if_pos hx, if_neg (by lia), UInt32.xor_assoc,
        UInt32.xor_comm (y >>> 1), ← UInt32.xor_assoc]
    · rw [if_neg (by lia), if_pos hx, if_pos hy, UInt32.xor_comm (y >>> 1),
        UInt32.xor_assoc, ← UInt32.xor_assoc 0xEDB88320, UInt32.xor_self,
        UInt32.zero_xor]

theorem crcByte_eq (crc : UInt32) (byte : UInt8) :
    crcByte crc byte = Nat.iterate crcBit 8 (crc ^^^ byte.toUInt32) := rfl

theorem iterate_crcBit_xor (n : Nat) (x y : UInt32) :
    Nat.iterate crcBit n (x ^^^ y) =
      Nat.iterate crcBit n x ^^^ Nat.iterate crcBit n y := by
  induction n generalizing x y with
  | zero => rfl
  | succ n ih =>
    show Nat.iterate crcBit n (crcBit (x ^^^ y)) = _
    rw [crcBit_xor, ih]
    rfl

theorem crcByte_xor (x y : UInt32) (byte : UInt8) :
    crcByte (x ^^^ y) byte = crcByte x byte ^^^ crcByte y 0 := by
  rw [crcByte_eq, crcByte_eq, crcByte_eq, UInt32.xor_assoc,
    UInt32.xor_comm y, ← UInt32.xor_assoc, iterate_crcBit_xor]
  show _ = _ ^^^ Nat.iterate crcBit 8 (y ^^^ 0)
  rw [UInt32.xor_zero]

theorem joins_bodyCrc : Joins bodyCrc crcCombine := by
  intro xs ys
  have hstate : xs.foldl crcByte 0xFFFFFFFF =
      (0xFFFFFFFF : UInt32) ^^^ bodyCrc xs := by
    unfold bodyCrc
    rw [UInt32.xor_comm (xs.foldl crcByte 0xFFFFFFFF), ← UInt32.xor_assoc,
      UInt32.xor_self, UInt32.zero_xor]
  show bodyCrc ys ^^^ Nat.iterate (fun c => crcByte c 0) ys.length
    (bodyCrc xs) = (xs ++ ys).foldl crcByte 0xFFFFFFFF ^^^ 0xFFFFFFFF
  rw [List.foldl_append, hstate, foldl_add crcByte_xor]
  unfold bodyCrc
  rw [UInt32.xor_assoc, UInt32.xor_assoc, UInt32.xor_comm 0xFFFFFFFF]

end Cache
end Pacer
