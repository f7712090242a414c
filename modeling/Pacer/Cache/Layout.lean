import Pacer.Cache.SlotHeader

/-!
# Extent layout

An extent file is a header region, one page for each slot it can hold, and then
the bodies.  A slot's two byte ranges are far apart; `locate` finds both.  The
results here are the geometry every proof about the disk rests on: the ranges of
a slot of the tier lie inside its extent, and no two ranges overlap.
-/

namespace Pacer
namespace Cache

open Foundation

def slotsPerExtent : Nat := 4 * 1024

def headerRegionBytes : Nat := slotsPerExtent * slotHeaderBytes

def directIoAlign : Nat := 4 * 1024

/-- Byte offset of slot `within`'s header entry, inside its extent. -/
def headerOffset (within : Nat) : Nat := within * slotHeaderBytes

def bodyOffset (within chunkSize : Nat) : Nat :=
  headerRegionBytes + within * chunkSize

/-- Slots extent `index` holds: a full extent, or what is left over for the
last one. -/
def slotsInExtent (slotCount index : Nat) : Nat :=
  min (slotCount - index * slotsPerExtent) slotsPerExtent

def alignUp (n : Nat) : Nat :=
  (n + (directIoAlign - 1)) / directIoAlign * directIoAlign

inductive ReadShape where
  | twoRead
  | overlap
deriving DecidableEq, Repr

structure StoreConfig where
  chunkSize : Nat
  capacityBytes : Nat
  verifyBody : Bool
  readShape : ReadShape

namespace StoreConfig

def slotBytes (cfg : StoreConfig) : Nat :=
  slotHeaderBytes + cfg.chunkSize

def slotCount (cfg : StoreConfig) : Nat :=
  max (cfg.capacityBytes / cfg.slotBytes) 1

def extentCount (cfg : StoreConfig) : Nat :=
  (cfg.slotCount + (slotsPerExtent - 1)) / slotsPerExtent

def extentBytes (cfg : StoreConfig) (index : Nat) : Nat :=
  headerRegionBytes + slotsInExtent cfg.slotCount index * cfg.chunkSize

end StoreConfig

structure SlotAt where
  extent : Nat
  headerAt : Nat
  bodyAt : Nat
deriving DecidableEq, Repr

/-- Which extent holds `slot`, and where its header and body are within it. -/
def locate (chunkSize slot : Nat) : SlotAt :=
  let within := slot % slotsPerExtent
  { extent := slot / slotsPerExtent,
    headerAt := headerOffset within,
    bodyAt := bodyOffset within chunkSize }

/-!
## Geometry
-/

theorem slotsPerExtent_pos : 0 < slotsPerExtent := by decide

theorem within_lt (slot : Nat) : slot % slotsPerExtent < slotsPerExtent :=
  Nat.mod_lt _ slotsPerExtent_pos

theorem slot_eq_of_coordinates {s t : Nat}
    (hextent : s / slotsPerExtent = t / slotsPerExtent)
    (hwithin : s % slotsPerExtent = t % slotsPerExtent) : s = t := by
  rw [← Nat.div_add_mod s slotsPerExtent, ← Nat.div_add_mod t slotsPerExtent,
    hextent, hwithin]

theorem lt_slotsInExtent_iff (slotCount slot : Nat) :
    slot % slotsPerExtent < slotsInExtent slotCount (slot / slotsPerExtent) <->
      slot < slotCount := by
  have hdiv := Nat.div_add_mod slot slotsPerExtent
  have hlt := within_lt slot
  unfold slotsInExtent
  lia

theorem headerOffset_add_le {within : Nat} (h : within < slotsPerExtent) :
    headerOffset within + slotHeaderBytes ≤ headerRegionBytes := by
  unfold headerOffset headerRegionBytes
  calc
    within * slotHeaderBytes + slotHeaderBytes
        = (within + 1) * slotHeaderBytes := by rw [Nat.add_one_mul]
    _ ≤ slotsPerExtent * slotHeaderBytes := Nat.mul_le_mul_right _ h

theorem headerRegionBytes_le_bodyOffset (within chunkSize : Nat) :
    headerRegionBytes ≤ bodyOffset within chunkSize :=
  Nat.le_add_right _ _

theorem stride_disjoint {i j : Nat} (stride : Nat) (h : i ≠ j) :
    i * stride + stride ≤ j * stride ∨ j * stride + stride ≤ i * stride := by
  rcases Nat.lt_or_gt_of_ne h with hlt | hgt
  · left
    rw [← Nat.add_one_mul]
    exact Nat.mul_le_mul_right _ hlt
  · right
    rw [← Nat.add_one_mul]
    exact Nat.mul_le_mul_right _ hgt

theorem headerOffset_disjoint {i j : Nat} (h : i ≠ j) :
    headerOffset i + slotHeaderBytes ≤ headerOffset j ∨
      headerOffset j + slotHeaderBytes ≤ headerOffset i :=
  stride_disjoint slotHeaderBytes h

theorem bodyOffset_disjoint {i j chunkSize : Nat} (h : i ≠ j) :
    bodyOffset i chunkSize + chunkSize ≤ bodyOffset j chunkSize ∨
      bodyOffset j chunkSize + chunkSize ≤ bodyOffset i chunkSize := by
  have hstride := stride_disjoint chunkSize h
  unfold bodyOffset
  lia

theorem bodyOffset_add_le {within slots chunkSize : Nat} (h : within < slots) :
    bodyOffset within chunkSize + chunkSize ≤
      headerRegionBytes + slots * chunkSize := by
  unfold bodyOffset
  have hmul : (within + 1) * chunkSize ≤ slots * chunkSize :=
    Nat.mul_le_mul_right _ h
  rw [Nat.add_one_mul] at hmul
  lia

theorem alignUp_ge (n : Nat) : n ≤ alignUp n := by
  unfold alignUp directIoAlign
  lia

end Cache
end Pacer
