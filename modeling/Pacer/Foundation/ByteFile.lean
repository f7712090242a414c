import Mathlib.Data.List.Basic
import Mathlib.Data.List.TakeDrop

/-!
# Positioned reads and writes of a byte file

A file is a length and the bytes below it.  The operations are the positioned
ones: an exact read fails past the end of the file, a write extends the file
when it must, and setting the length truncates or extends with zeros.

Proofs about a laid-out file only ever need what a read sees after a write: the
bytes just written when the two ranges are the same, and the old bytes when
they are disjoint.
-/

namespace Pacer
namespace Foundation

abbrev Bytes := List UInt8

/-- A file: its length, and its bytes.  `byte` is read below `len` only. -/
structure ByteFile where
  len : Nat
  byte : Nat -> UInt8

namespace ByteFile

def empty : ByteFile := { len := 0, byte := fun _ => 0 }

def get (f : ByteFile) (i : Nat) : UInt8 :=
  if i < f.len then f.byte i else 0

def setLen (f : ByteFile) (n : Nat) : ByteFile :=
  { len := n, byte := f.get }

def slice (f : ByteFile) (off n : Nat) : Bytes :=
  (List.range n).map fun i => f.get (off + i)

/-- Fill a buffer of `n` bytes from `off`; `none` is an unexpected end of file.
An empty buffer is filled without a read. -/
def readExactAt (f : ByteFile) (off n : Nat) : Option Bytes :=
  if n = 0 ∨ off + n ≤ f.len then some (f.slice off n) else none

def writeAllAt (f : ByteFile) (off : Nat) (bs : Bytes) : ByteFile :=
  { len := if bs = [] then f.len else max f.len (off + bs.length),
    byte := fun i =>
      if off ≤ i ∧ i < off + bs.length then bs.getD (i - off) 0
      else f.get i }

/-!
## Bytes
-/

@[simp] theorem get_empty (i : Nat) : empty.get i = 0 := by
  simp [get, empty]

variable {f : ByteFile} {bs : Bytes}

theorem get_of_len_le {i : Nat} (h : f.len ≤ i) :
    f.get i = 0 := by
  simp [get, Nat.not_lt.mpr h]

theorem get_setLen (f : ByteFile) (n i : Nat) :
    (f.setLen n).get i = if i < n then f.get i else 0 := rfl

theorem get_writeAllAt_of_mem (f : ByteFile) {off i : Nat} {bs : Bytes}
    (hlo : off ≤ i) (hhi : i < off + bs.length) :
    (f.writeAllAt off bs).get i = bs.getD (i - off) 0 := by
  have hne : bs ≠ [] := by
    intro h
    simp [h] at hhi
    lia
  have hlt : i < (f.writeAllAt off bs).len := by
    simp [writeAllAt, hne]
    lia
  rw [get, if_pos hlt]
  simp [writeAllAt, hlo, hhi]

theorem get_writeAllAt_of_not_mem {off i : Nat}
    (h : i < off ∨ off + bs.length ≤ i) :
    (f.writeAllAt off bs).get i = f.get i := by
  have hout : ¬ (off ≤ i ∧ i < off + bs.length) := by lia
  by_cases hlt : i < (f.writeAllAt off bs).len
  · rw [get, if_pos hlt]
    simp [writeAllAt, hout]
  · rw [get, if_neg hlt]
    have hlen : f.len ≤ i := by
      by_cases hbs : bs = []
      · simpa [writeAllAt, hbs] using hlt
      · simp [writeAllAt, hbs] at hlt
        lia
    rw [get_of_len_le hlen]

theorem len_writeAllAt_of_le {off : Nat} (h : off + bs.length ≤ f.len) :
    (f.writeAllAt off bs).len = f.len := by
  by_cases hbs : bs = []
  · simp [writeAllAt, hbs]
  · simp [writeAllAt, hbs]
    lia

/-!
## Slices
-/

@[simp] theorem length_slice (f : ByteFile) (off n : Nat) :
    (f.slice off n).length = n := by
  simp [slice]

theorem slice_congr {f g : ByteFile} {off n : Nat}
    (h : forall i, off ≤ i -> i < off + n -> f.get i = g.get i) :
    f.slice off n = g.slice off n := by
  unfold slice
  apply List.map_congr_left
  intro i hi
  have hlt : i < n := List.mem_range.mp hi
  exact h (off + i) (by lia) (by lia)

theorem take_slice {off n m : Nat} (h : m ≤ n) :
    (f.slice off n).take m = f.slice off m := by
  simp [slice, ← List.map_take, List.take_range, Nat.min_eq_left h]

theorem window_slice (f : ByteFile) (base : Nat) {off n total : Nat}
    (h : off + n ≤ total) :
    ((f.slice base total).drop off).take n = f.slice (base + off) n := by
  apply List.ext_getElem
  · simp
    lia
  · intro i hi hi'
    simp [slice, Nat.add_assoc]

theorem slice_writeAllAt_same (f : ByteFile) (off : Nat) (bs : Bytes) :
    (f.writeAllAt off bs).slice off bs.length = bs := by
  apply List.ext_getElem
  · simp
  · intro i hi hi'
    have hget : (f.writeAllAt off bs).get (off + i) =
        bs.getD (off + i - off) 0 :=
      get_writeAllAt_of_mem f (by lia) (by lia)
    simp [slice, hget, hi']

theorem slice_writeAllAt_of_disjoint {off n pos : Nat}
    (h : off + n ≤ pos ∨ pos + bs.length ≤ off) :
    (f.writeAllAt pos bs).slice off n = f.slice off n := by
  apply slice_congr
  intro i hlo hhi
  apply get_writeAllAt_of_not_mem
  lia

theorem slice_setLen_of_le {off n len : Nat} (h : off + n ≤ len)
    : (f.setLen len).slice off n = f.slice off n := by
  apply slice_congr
  intro i _ hhi
  rw [get_setLen, if_pos (by lia)]

/-!
## Exact reads
-/

theorem readExactAt_of_le {off n : Nat} (h : off + n ≤ f.len) :
    f.readExactAt off n = some (f.slice off n) := by
  simp [readExactAt, h]

theorem readExactAt_some {off n : Nat} (h : f.readExactAt off n = some bs)
    : bs = f.slice off n := by
  unfold readExactAt at h
  split at h
  · simpa using h.symm
  · cases h

end ByteFile

end Foundation
end Pacer
