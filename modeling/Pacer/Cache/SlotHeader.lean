import Pacer.Foundation.Buffer
import Pacer.Foundation.LittleEndian

/-!
# The slot header page

The on-disk header of one chunk slot: a page of fixed little-endian fields
followed by the key and, right after it, the ETag witness.  Writing refuses a
key or a witness past its budget; parsing tells a free slot from a damaged one.

The main results are that a page read back gives the header that was written
(an empty witness reading as none), and that a page of zeros is a free slot.
-/

namespace Pacer
namespace Cache

open Foundation
open Foundation.Buffer

def slotHeaderBytes : Nat := 4 * 1024

def slotMagic : Nat := 0x50414345525f534c

def slotFormatVersion : Nat := 3

def offMagic : Nat := 0
def offVersion : Nat := 8
def offBodyLen : Nat := 12
def offBodyCrc : Nat := 16
def offKeyLen : Nat := 20
def offETagLen : Nat := 22
def offKey : Nat := 24

def maxETagBytes : Nat := 256

def maxKeyBytes : Nat := slotHeaderBytes - offKey - maxETagBytes

structure SlotHeader where
  key : String
  bodyLen : UInt32
  bodyCrc : UInt32
  eTag : Option String
deriving DecidableEq, Repr

def crcByte (crc : UInt32) (byte : UInt8) : UInt32 :=
  (List.range 8).foldl
    (fun c _ => if c &&& 1 = 1 then (c >>> 1) ^^^ 0xEDB88320 else c >>> 1)
    (crc ^^^ byte.toUInt32)

def bodyCrc (body : Bytes) : UInt32 :=
  body.foldl crcByte 0xFFFFFFFF ^^^ 0xFFFFFFFF

inductive SlotState where
  | free
  | corrupt
  | keyNotUtf8
deriving DecidableEq, Repr

namespace SlotHeader

/-- The fields of the page in page order: the fixed ones, the key, and the
witness right after it. -/
def fields (h : SlotHeader) : List (Nat × Bytes) :=
  let key := utf8 h.key
  let etag := utf8 (h.eTag.getD "")
  [(offMagic, LittleEndian.toBytes 8 slotMagic),
    (offVersion, LittleEndian.toBytes 4 slotFormatVersion),
    (offBodyLen, LittleEndian.toBytes 4 h.bodyLen.toNat),
    (offBodyCrc, LittleEndian.toBytes 4 h.bodyCrc.toNat),
    (offKeyLen, LittleEndian.toBytes 2 key.length),
    (offETagLen, LittleEndian.toBytes 2 etag.length),
    (offKey, key),
    (offKey + key.length, etag)]

def filled (h : SlotHeader) (dst : Bytes) : Bytes :=
  copyAll (dst.map fun _ => 0) h.fields

def writeTo (h : SlotHeader) (dst : Bytes) : Except String Bytes :=
  let keyLen := (utf8 h.key).length
  let etagLen := (utf8 (h.eTag.getD "")).length
  if keyLen > maxKeyBytes then
    .error s!"chunk key of {keyLen} bytes exceeds the {maxKeyBytes}-byte slot header budget"
  else if etagLen > maxETagBytes then
    .error s!"chunk etag of {etagLen} bytes exceeds the {maxETagBytes}-byte slot header budget"
  else
    .ok (h.filled dst)

/-- Parse a header out of a page, or say why it is not one.  A body longer than
`slotBodyCapacity`, the tier's chunk size, is damage. -/
def parse (src : Bytes) (slotBodyCapacity : Nat) : Except SlotState SlotHeader :=
  let magic := LittleEndian.ofBytes (field src offMagic 8)
  let version := LittleEndian.ofBytes (field src offVersion 4)
  if magic ≠ slotMagic ∨ version ≠ slotFormatVersion then
    .error .free
  else
    let bodyLen := UInt32.ofNat (LittleEndian.ofBytes (field src offBodyLen 4))
    let bodyCrc := UInt32.ofNat (LittleEndian.ofBytes (field src offBodyCrc 4))
    let keyLen := LittleEndian.ofBytes (field src offKeyLen 2)
    if keyLen = 0 ∨ keyLen > maxKeyBytes ∨ bodyLen.toNat > slotBodyCapacity then
      .error .corrupt
    else
      match fromUtf8? (field src offKey keyLen) with
      | none => .error .keyNotUtf8
      | some key =>
        let etagLen := LittleEndian.ofBytes (field src offETagLen 2)
        if etagLen > maxETagBytes then
          .error .corrupt
        else if etagLen = 0 then
          .ok { key, bodyLen, bodyCrc, eTag := none }
        else
          match fromUtf8? (field src (offKey + keyLen) etagLen) with
          | none => .error .corrupt
          | some etag => .ok { key, bodyLen, bodyCrc, eTag := some etag }

/-- As `parse`, with every slice checked to be inside the page; `none` is one
that is not. -/
def parse? (src : Bytes) (slotBodyCapacity : Nat) :
    Option (Except SlotState SlotHeader) := do
  let magic <- field? src offMagic 8
  let version <- field? src offVersion 4
  if LittleEndian.ofBytes magic ≠ slotMagic ∨
      LittleEndian.ofBytes version ≠ slotFormatVersion then
    return .error .free
  let bodyLen := UInt32.ofNat (LittleEndian.ofBytes
    (<- field? src offBodyLen 4))
  let bodyCrc := UInt32.ofNat (LittleEndian.ofBytes
    (<- field? src offBodyCrc 4))
  let keyLen := LittleEndian.ofBytes (<- field? src offKeyLen 2)
  if keyLen = 0 ∨ keyLen > maxKeyBytes ∨ bodyLen.toNat > slotBodyCapacity then
    return .error .corrupt
  match fromUtf8? (<- field? src offKey keyLen) with
  | none => return .error .keyNotUtf8
  | some key =>
    let etagLen := LittleEndian.ofBytes (<- field? src offETagLen 2)
    if etagLen > maxETagBytes then
      return .error .corrupt
    else if etagLen = 0 then
      return .ok { key, bodyLen, bodyCrc, eTag := none }
    else
      match fromUtf8? (<- field? src (offKey + keyLen) etagLen) with
      | none => return .error .corrupt
      | some etag => return .ok { key, bodyLen, bodyCrc, eTag := some etag }

def witness : Option String -> Option String
  | some "" => none
  | e => e

/-- The header a page can express: `h` with an empty witness read as none. -/
def normal (h : SlotHeader) : SlotHeader :=
  { h with eTag := witness h.eTag }

def Fits (h : SlotHeader) : Prop :=
  (utf8 h.key).length ≤ maxKeyBytes ∧
    (utf8 (h.eTag.getD "")).length ≤ maxETagBytes

instance (h : SlotHeader) : Decidable h.Fits :=
  inferInstanceAs (Decidable (_ ∧ _))

theorem witness_eq_none_iff (e : Option String) :
    witness e = none <-> utf8 (e.getD "") = [] := by
  cases e with
  | none => simp [witness]
  | some s =>
    rw [Option.getD_some, utf8_eq_nil_iff]
    by_cases hs : s = ""
    · simp [hs, witness]
    · simp [witness, hs]

theorem witness_of_ne_nil {e : Option String}
    (h : utf8 (e.getD "") ≠ []) : witness e = some (e.getD "") := by
  cases e with
  | none => simp at h
  | some s =>
    have hs : s ≠ "" := by simpa [utf8_eq_nil_iff] using h
    simp [witness, hs]

/-!
## Reading a written page back

Each field is at an offset no later copy reaches, so a written page is read
back field by field.
-/

variable {h : SlotHeader}

theorem writeTo_of_fits (hfits : h.Fits) (dst : Bytes) :
    h.writeTo dst = .ok (h.filled dst) := by
  have hkey : ¬ (utf8 h.key).length > maxKeyBytes := Nat.not_lt.mpr hfits.left
  have hetag : ¬ (utf8 (h.eTag.getD "")).length > maxETagBytes :=
    Nat.not_lt.mpr hfits.right
  simp [writeTo, hkey, hetag]

variable {dst : Bytes}

theorem writeTo_ok {page : Bytes} (hok : h.writeTo dst = .ok page) :
    h.Fits ∧ page = h.filled dst := by
  unfold writeTo at hok
  dsimp only at hok
  split at hok
  · cases hok
  rename_i hkey
  split at hok
  · cases hok
  rename_i hetag
  cases hok
  exact ⟨⟨Nat.not_lt.mp hkey, Nat.not_lt.mp hetag⟩, rfl⟩

theorem writeTo_error_of_not_fits (hfits : ¬ h.Fits) (dst : Bytes)
    : exists message, h.writeTo dst = .error message := by
  cases hw : h.writeTo dst with
  | error message => exact ⟨message, rfl⟩
  | ok page => exact absurd (writeTo_ok hw).left hfits

def encodedBytes (h : SlotHeader) : Nat :=
  offKey + (utf8 h.key).length + (utf8 (h.eTag.getD "")).length

theorem fields_ascending {limit : Nat} (hlimit : h.encodedBytes ≤ limit) :
    Ascending 0 h.fields limit := by
  simpa [Ascending, fields, encodedBytes, offMagic, offVersion, offBodyLen,
    offBodyCrc, offKeyLen, offETagLen, offKey] using hlimit

theorem encodedBytes_le (hfits : h.Fits) :
    h.encodedBytes ≤ slotHeaderBytes := by
  have hkey := hfits.left
  have hetag := hfits.right
  simp only [maxKeyBytes, maxETagBytes, slotHeaderBytes, offKey] at hkey hetag
  simp only [encodedBytes, slotHeaderBytes, offKey]
  lia

theorem ascending_of_fits (hfits : h.Fits)
    (hdst : dst.length = slotHeaderBytes) :
    Ascending 0 h.fields (dst.map fun _ => (0 : UInt8)).length := by
  rw [List.length_map, hdst]
  exact fields_ascending (encodedBytes_le hfits)

theorem length_filled (hfits : h.Fits) (hdst : dst.length = slotHeaderBytes) :
    (h.filled dst).length = slotHeaderBytes := by
  rw [filled, length_copyAll (ascending_of_fits hfits hdst), List.length_map,
    hdst]

variable {src : Bytes}

theorem field_filled {off : Nat} (hfits : h.Fits)
    (hdst : dst.length = slotHeaderBytes) (hmem : (off, src) ∈ h.fields) :
    field (h.filled dst) off src.length = src :=
  field_copyAll (ascending_of_fits hfits hdst) hmem

theorem ofBytes_field_filled {off width n : Nat} (hfits : h.Fits)
    (hdst : dst.length = slotHeaderBytes)
    (hmem : (off, LittleEndian.toBytes width n) ∈ h.fields)
    (hn : n < 256 ^ width) :
    LittleEndian.ofBytes (field (h.filled dst) off width) = n := by
  have hfield := field_filled hfits hdst hmem
  rw [LittleEndian.length_toBytes] at hfield
  rw [hfield, LittleEndian.ofBytes_toBytes hn]

theorem parse_filled (hfits : h.Fits) (hdst : dst.length = slotHeaderBytes)
    (slotBodyCapacity : Nat) :
    parse (h.filled dst) slotBodyCapacity =
      if h.key = "" ∨ h.bodyLen.toNat > slotBodyCapacity then .error .corrupt
      else .ok h.normal := by
  have hkeyFits := hfits.left
  have hetagFits := hfits.right
  have hmaxKey : maxKeyBytes = 3816 := rfl
  have hmaxETag : maxETagBytes = 256 := rfl
  have hmagic : LittleEndian.ofBytes (field (h.filled dst) offMagic 8) =
      slotMagic :=
    ofBytes_field_filled hfits hdst (by simp [fields]) (by decide)
  have hversion : LittleEndian.ofBytes (field (h.filled dst) offVersion 4) =
      slotFormatVersion :=
    ofBytes_field_filled hfits hdst (by simp [fields]) (by decide)
  have hbodyLen : LittleEndian.ofBytes (field (h.filled dst) offBodyLen 4) =
      h.bodyLen.toNat :=
    ofBytes_field_filled hfits hdst (by simp [fields]) h.bodyLen.toNat_lt
  have hbodyCrc : LittleEndian.ofBytes (field (h.filled dst) offBodyCrc 4) =
      h.bodyCrc.toNat :=
    ofBytes_field_filled hfits hdst (by simp [fields]) h.bodyCrc.toNat_lt
  have hkeyLen : LittleEndian.ofBytes (field (h.filled dst) offKeyLen 2) =
      (utf8 h.key).length :=
    ofBytes_field_filled hfits hdst (by simp [fields]) (by lia)
  have hetagLen : LittleEndian.ofBytes (field (h.filled dst) offETagLen 2) =
      (utf8 (h.eTag.getD "")).length :=
    ofBytes_field_filled hfits hdst (by simp [fields]) (by lia)
  have hkey : field (h.filled dst) offKey (utf8 h.key).length = utf8 h.key :=
    field_filled hfits hdst (by simp [fields])
  have hetag : field (h.filled dst) (offKey + (utf8 h.key).length)
      (utf8 (h.eTag.getD "")).length = utf8 (h.eTag.getD "") :=
    field_filled hfits hdst (by simp [fields])
  have hkeyEmpty : (utf8 h.key).length = 0 <-> h.key = "" := by
    rw [List.length_eq_zero_iff, utf8_eq_nil_iff]
  unfold parse
  simp only [hmagic, hversion, hbodyLen, hbodyCrc, hkeyLen, hetagLen, hkey,
    hetag, UInt32.ofNat_toNat, fromUtf8?_utf8, ne_eq, not_true_eq_false,
    or_self, if_false, hkeyEmpty, Nat.not_lt.mpr hkeyFits,
    Nat.not_lt.mpr hetagFits, false_or]
  by_cases hbad : h.key = "" ∨ h.bodyLen.toNat > slotBodyCapacity
  · simp [hbad]
  · simp only [hbad, if_false]
    by_cases hnil : utf8 (h.eTag.getD "") = []
    · have hwit := (witness_eq_none_iff h.eTag).mpr hnil
      simp [hnil, normal, hwit]
    · have hwit := witness_of_ne_nil hnil
      have hlen : (utf8 (h.eTag.getD "")).length ≠ 0 := by
        simpa using hnil
      simp [hlen, normal, hwit]

theorem parse_ok {slotBodyCapacity : Nat}
    (hparse : parse src slotBodyCapacity = .ok h) :
    h.bodyLen.toNat ≤ slotBodyCapacity ∧ h.Fits ∧
      exists keyLen, keyLen ≠ 0 ∧ keyLen ≤ maxKeyBytes ∧
        fromUtf8? (field src offKey keyLen) = some h.key := by
  unfold parse at hparse
  dsimp only at hparse
  split at hparse
  · cases hparse
  split at hparse
  · cases hparse
  rename_i hfields
  have hlen := Nat.not_lt.mp fun hgt => hfields (Or.inr (Or.inr hgt))
  have hmax := Nat.not_lt.mp fun hgt => hfields (Or.inr (Or.inl hgt))
  have hne := fun hzero => hfields (Or.inl hzero)
  split at hparse
  · cases hparse
  rename_i key hkey
  have hkeyMax := Nat.le_trans (length_utf8_of_field hkey) hmax
  split at hparse
  · cases hparse
  rename_i hetagMax
  split at hparse
  · cases hparse
    exact ⟨hlen, ⟨hkeyMax, Nat.zero_le _⟩, _, hne, hmax, hkey⟩
  · split at hparse
    · cases hparse
    rename_i etag hetag
    cases hparse
    have hetagLen := Nat.le_trans (length_utf8_of_field hetag)
      (Nat.not_lt.mp hetagMax)
    exact ⟨hlen, ⟨hkeyMax, hetagLen⟩, _, hne, hmax, hkey⟩

theorem parse_key_ne_empty {slotBodyCapacity : Nat}
    (hsrc : src.length = slotHeaderBytes)
    (hparse : parse src slotBodyCapacity = .ok h) : h.key ≠ "" := by
  rcases parse_ok hparse with ⟨_, _, keyLen, hne, hmax, hkey⟩
  have hutf8 := utf8_of_fromUtf8? hkey
  have hmaxKey : maxKeyBytes = 3816 := rfl
  have hpage : slotHeaderBytes = 4096 := rfl
  have hoff : offKey = 24 := rfl
  have hlength : (field src offKey keyLen).length = keyLen := by
    apply length_field
    lia
  intro hempty
  rw [hempty, utf8_empty] at hutf8
  rw [← hutf8] at hlength
  exact hne hlength.symm

theorem parse_zeros (slotBodyCapacity : Nat) :
    parse (List.replicate slotHeaderBytes 0) slotBodyCapacity =
      .error .free := by
  have hmin : min 8 (slotHeaderBytes - offMagic) = 8 := rfl
  have hmagic : LittleEndian.ofBytes
      (field (List.replicate slotHeaderBytes 0) offMagic 8) ≠ slotMagic := by
    rw [field, List.drop_replicate, List.take_replicate, hmin]
    decide
  unfold parse
  simp [hmagic]

/-!
## Pages as a whole
-/

theorem parse?_of_page (hsrc : src.length = slotHeaderBytes)
    (slotBodyCapacity : Nat) :
    parse? src slotBodyCapacity = some (parse src slotBodyCapacity) := by
  have hfield : forall {off n : Nat}, off + n ≤ slotHeaderBytes ->
      field? src off n = some (field src off n) := by
    intro off n hle
    rw [← hsrc] at hle
    exact if_pos hle
  unfold parse? parse
  rw [hfield (by decide), hfield (by decide), hfield (by decide),
    hfield (by decide), hfield (by decide), hfield (by decide)]
  simp only [Option.bind_eq_bind, Option.bind_some, Option.pure_def]
  split
  · rfl
  · split
    · rfl
    · rename_i hbounds
      have hmaxKey : maxKeyBytes = 3816 := rfl
      have hmaxETag : maxETagBytes = 256 := rfl
      have hpage : slotHeaderBytes = 4096 := rfl
      have hoff : offKey = 24 := rfl
      rw [hfield (by lia), Option.bind_some]
      split
      · rfl
      · split
        · rfl
        · split
          · rfl
          · rw [hfield (by lia), Option.bind_some]
            split <;> rfl

/-- A page that was written holds its header and nothing else, and a page of any
content is parsed inside its bounds, to a header within the limits. -/
theorem slot_pages_exact {dst page : Bytes}
    (hdst : dst.length = slotHeaderBytes) (hkey : h.key ≠ "")
    (hok : h.writeTo dst = .ok page) :
    (forall capacity, h.bodyLen.toNat ≤ capacity ->
      parse page capacity = .ok h.normal) ∧
    page.drop h.encodedBytes =
      List.replicate (slotHeaderBytes - h.encodedBytes) 0 ∧
    (forall (h' : SlotHeader) (dst' : Bytes), dst'.length = slotHeaderBytes ->
      h'.key ≠ "" -> h'.writeTo dst' = .ok page -> h'.normal = h.normal) ∧
    forall (src : Bytes) capacity, src.length = slotHeaderBytes ->
      parse? src capacity = some (parse src capacity) ∧
      forall found, parse src capacity = .ok found ->
        found.bodyLen.toNat ≤ capacity ∧ found.key ≠ "" ∧ found.Fits := by
  have hparse : forall {h : SlotHeader} {dst : Bytes} {capacity : Nat},
      dst.length = slotHeaderBytes -> h.key ≠ "" -> h.writeTo dst = .ok page ->
      h.bodyLen.toNat ≤ capacity -> parse page capacity = .ok h.normal := by
    intro h dst capacity hdst hkey hok hle
    rcases writeTo_ok hok with ⟨hfits, rfl⟩
    rw [parse_filled hfits hdst, if_neg]
    rintro (hempty | hlong)
    · exact hkey hempty
    · exact Nat.not_lt.mpr hle hlong
  refine ⟨fun capacity => hparse hdst hkey hok, ?_, ?_, ?_⟩
  · rcases writeTo_ok hok with ⟨hfits, rfl⟩
    have hle := encodedBytes_le hfits
    rw [← hdst, ← List.length_map (fun _ => (0 : UInt8))] at hle
    rw [filled, drop_copyAll (fields_ascending (Nat.le_refl _)) hle]
    simp [hdst]
  · intro h' dst' hdst' hkey' hok'
    have hnormal := hparse hdst hkey hok
      (Nat.le_max_left h.bodyLen.toNat h'.bodyLen.toNat)
    rw [hparse hdst' hkey' hok' (Nat.le_max_right _ _)] at hnormal
    exact Except.ok.inj hnormal
  · intro src capacity hsrc
    refine ⟨parse?_of_page hsrc capacity, ?_⟩
    intro found hfound
    rcases parse_ok hfound with ⟨hlen, hfits, _⟩
    exact ⟨hlen, parse_key_ne_empty hsrc hfound, hfits⟩

theorem slot_pages_exact_reused : exists page,
    writeTo ⟨"k", 1, 2, some ""⟩ (List.replicate slotHeaderBytes 7) =
        .ok page ∧
      parse page 1 = .ok ⟨"k", 1, 2, none⟩ := by
  have hok := writeTo_of_fits (h := ⟨"k", 1, 2, some ""⟩) (by decide)
    (List.replicate slotHeaderBytes 7)
  have hpage := slot_pages_exact List.length_replicate (by decide) hok
  exact ⟨_, hok, hpage.left 1 (Nat.le_refl 1)⟩

end SlotHeader

end Cache
end Pacer
