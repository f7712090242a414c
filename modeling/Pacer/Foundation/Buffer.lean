import Pacer.Foundation.ByteFile

/-!
# Fields of a fixed-size buffer, and UTF-8 text in them

A record format writes its fields into a zeroed buffer and reads them back by
offset.  As for files, all a proof needs is that a field just written reads
back, and that a write elsewhere does not disturb it.
-/

namespace Pacer
namespace Foundation

namespace Buffer

def field (src : Bytes) (off n : Nat) : Bytes :=
  (src.drop off).take n

def copyAt (dst : Bytes) (off : Nat) (src : Bytes) : Bytes :=
  dst.take off ++ (src ++ dst.drop (off + src.length))

/-- As `field`, of a slice that must be inside; `none` is one that is not. -/
def field? (src : Bytes) (off n : Nat) : Option Bytes :=
  if off + n ≤ src.length then some (field src off n) else none

variable {fields : List (Nat × Bytes)} {dst src : Bytes}

theorem length_copyAt {off : Nat} (h : off + src.length ≤ dst.length) :
    (copyAt dst off src).length = dst.length := by
  simp [copyAt]
  lia

theorem length_field {src : Bytes} {off n : Nat} (h : off + n ≤ src.length) :
    (field src off n).length = n := by
  simp [field]
  lia

theorem field_copyAt_same {off n : Nat} (hn : n = src.length)
    (h : off ≤ dst.length) :
    field (copyAt dst off src) off n = src := by
  have htake : (dst.take off).length = off := by simp [h]
  unfold field copyAt
  rw [List.drop_left' htake, hn, List.take_left]

theorem field_copyAt_of_le {off pos n : Nat} (h : off + n ≤ pos)
    (hpos : pos ≤ dst.length) :
    field (copyAt dst pos src) off n = field dst off n := by
  have htake : (dst.take pos).length = pos := by simp [hpos]
  unfold field copyAt
  rw [List.drop_append_of_le_length (by lia),
    List.take_append_of_le_length (by simp; lia), List.drop_take,
    List.take_take]
  congr 1
  lia

theorem drop_copyAt {off pos : Nat} (h : off + src.length ≤ dst.length)
    (hpos : off + src.length ≤ pos) :
    (copyAt dst off src).drop pos = dst.drop pos := by
  have hlen : (dst.take off ++ src).length = off + src.length := by
    simp
    lia
  rw [copyAt, ← List.append_assoc, List.drop_append,
    List.drop_eq_nil_of_le (Nat.le_trans (Nat.le_of_eq hlen) hpos), hlen,
    List.drop_drop, Nat.add_sub_of_le hpos]
  rfl

theorem copyAt_append {front rest : Bytes} {off : Nat}
    (h : off = front.length) :
    copyAt (front ++ rest) off src = front ++ src ++ rest.drop src.length := by
  rw [copyAt, h, List.take_left, List.drop_append]
  simp

/-!
## A record laid out field after field
-/

def copyAll (dst : Bytes) : List (Nat × Bytes) -> Bytes
  | [] => dst
  | (off, src) :: rest => copyAll (copyAt dst off src) rest

/-- The fields come one after the other, from `lo` on, and end by `limit`. -/
def Ascending (lo : Nat) (fields : List (Nat × Bytes)) (limit : Nat) : Prop :=
  match fields with
  | [] => lo ≤ limit
  | (off, src) :: rest => lo ≤ off ∧ Ascending (off + src.length) rest limit

theorem ascending_le {lo limit : Nat} (h : Ascending lo fields limit)
    : lo ≤ limit := by
  induction fields generalizing lo with
  | nil => exact h
  | cons entry rest ih =>
    rcases h with ⟨hlo, hrest⟩
    have hle := ih hrest
    lia

theorem length_copyAll {lo : Nat} (h : Ascending lo fields dst.length) :
    (copyAll dst fields).length = dst.length := by
  induction fields generalizing dst lo with
  | nil => rfl
  | cons entry rest ih =>
    rcases h with ⟨_hlo, hrest⟩
    have hlen := length_copyAt (ascending_le hrest)
    rw [copyAll, ih (by rw [hlen]; exact hrest), hlen]

theorem field_copyAll_of_le {lo off n : Nat}
    (h : Ascending lo fields dst.length) (hoff : off + n ≤ lo) :
    field (copyAll dst fields) off n = field dst off n := by
  induction fields generalizing dst lo with
  | nil => rfl
  | cons entry rest ih =>
    rcases h with ⟨hlo, hrest⟩
    have hle := ascending_le hrest
    have hlen := length_copyAt hle
    rw [copyAll, ih (by rw [hlen]; exact hrest) (by lia),
      field_copyAt_of_le (by lia) (by lia)]

theorem field_copyAll {lo off : Nat} {src : Bytes}
    (h : Ascending lo fields dst.length) (hmem : (off, src) ∈ fields) :
    field (copyAll dst fields) off src.length = src := by
  induction fields generalizing dst lo with
  | nil => cases hmem
  | cons entry rest ih =>
    rcases h with ⟨hlo, hrest⟩
    have hle := ascending_le hrest
    have hlen := length_copyAt hle
    have hrest' : Ascending (entry.1 + entry.2.length) rest
        (copyAt dst entry.1 entry.2).length := by
      rw [hlen]
      exact hrest
    rw [copyAll]
    rcases List.mem_cons.mp hmem with hhead | htail
    · rw [← hhead] at hrest' hle
      dsimp only at hrest' hle
      rw [← hhead]
      dsimp only
      rw [field_copyAll_of_le hrest' (Nat.le_refl _),
        field_copyAt_same rfl (by lia)]
    · exact ih hrest' htail

theorem drop_copyAll {lo pos : Nat} (h : Ascending lo fields pos)
    (hpos : pos ≤ dst.length) :
    (copyAll dst fields).drop pos = dst.drop pos := by
  induction fields generalizing dst lo with
  | nil => rfl
  | cons entry rest ih =>
    have hle := ascending_le h.right
    have hlen := length_copyAt (Nat.le_trans hle hpos)
    rw [copyAll, ih h.right (hlen.symm ▸ hpos),
      drop_copyAt (Nat.le_trans hle hpos) hle]

/-!
## UTF-8
-/

def utf8 (s : String) : Bytes := s.toByteArray.data.toList

def fromUtf8? (bs : Bytes) : Option String :=
  String.fromUTF8? { data := bs.toArray }

theorem fromUtf8?_utf8 (s : String) : fromUtf8? (utf8 s) = some s := by
  have hdata : ({ data := (utf8 s).toArray } : ByteArray) = s.toByteArray := by
    simp [utf8]
  unfold fromUtf8?
  rw [hdata]
  unfold String.fromUTF8?
  rw [dif_pos s.isValidUTF8]
  rfl

theorem utf8_of_fromUtf8? {bs : Bytes} {s : String}
    (h : fromUtf8? bs = some s) : utf8 s = bs := by
  unfold fromUtf8? String.fromUTF8? at h
  split at h
  · rw [← Option.some.inj h]
    simp [utf8, String.fromUTF8]
  · cases h

theorem length_utf8_of_field {off n : Nat} {s : String}
    (h : fromUtf8? (field src off n) = some s) : (utf8 s).length ≤ n := by
  rw [utf8_of_fromUtf8? h]
  exact List.length_take_le n _

theorem utf8_inj {s t : String} (h : utf8 s = utf8 t) : s = t := by
  have hs := fromUtf8?_utf8 s
  rw [h, fromUtf8?_utf8 t] at hs
  exact (Option.some.inj hs).symm

theorem utf8_ofList (cs : List Char) :
    utf8 (String.ofList cs) = cs.flatMap String.utf8EncodeChar := by
  rw [utf8, String.toByteArray_ofList, List.utf8Encode]
  simp

theorem utf8_ofList_ascii {cs : List Char}
    (h : forall c, c ∈ cs -> c.toNat ≤ 127) :
    utf8 (String.ofList cs) = cs.map fun c => UInt8.ofNat c.toNat := by
  rw [utf8_ofList]
  induction cs with
  | nil => rfl
  | cons c rest ih =>
    have hc : c.val.toNat ≤ 127 := h c List.mem_cons_self
    have hencode : String.utf8EncodeChar c = [UInt8.ofNat c.toNat] :=
      if_pos hc
    rw [List.flatMap_cons, hencode, List.map_cons, List.singleton_append,
      ih fun c' hc' => h c' (List.mem_cons_of_mem c hc')]

@[simp] theorem utf8_empty : utf8 "" = [] := rfl

theorem utf8_eq_nil_iff (s : String) : utf8 s = [] <-> s = "" := by
  constructor
  · intro h
    exact utf8_inj (h.trans utf8_empty.symm)
  · intro h
    rw [h, utf8_empty]

end Buffer

end Foundation
end Pacer
