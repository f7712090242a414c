import Mathlib.Logic.Function.Basic
import Pacer.Cache.Layout

/-!
# Slot I/O

The file operations of a read and of a write: the 4 KiB header read, the body
read, the key check, the optional checksum, the body write and the header
write.  Everything above this module sees the disk through two views of a slot,
the header its page parses to and the bytes of its body.  The frame laws say
what each write does to the two views of every slot.
-/

namespace Pacer
namespace Cache

open Foundation

/-- The extent files of a store directory, by extent number.  A file that was
never created is an empty one. -/
abbrev Directory := Nat -> ByteFile

/-- One cached chunk: its bytes and the ETag of the version they belong to. -/
structure CachedChunk where
  body : Bytes
  eTag : Option String
deriving DecidableEq, Repr

inductive IoError where
  | unexpectedEof
deriving DecidableEq, Repr

/-!
## Views of a slot
-/

def headerPage (dir : Directory) (slot : Nat) : Bytes :=
  (dir (slot / slotsPerExtent)).slice
    (headerOffset (slot % slotsPerExtent)) slotHeaderBytes

def bodyBytes (chunkSize : Nat) (dir : Directory) (slot n : Nat) : Bytes :=
  (dir (slot / slotsPerExtent)).slice
    (bodyOffset (slot % slotsPerExtent) chunkSize) n

def slotHeader (chunkSize : Nat) (dir : Directory) (slot : Nat) :
    Option SlotHeader :=
  (SlotHeader.parse (headerPage dir slot) chunkSize).toOption

/-!
## Reads
-/

/-- One slot's header entry, or `none` when the slot is free or corrupt. -/
def readHeader (cfg : StoreConfig) (dir : Directory) (slot : Nat) :
    Except IoError (Option SlotHeader) :=
  let loc := locate cfg.chunkSize slot
  match (dir loc.extent).readExactAt loc.headerAt slotHeaderBytes with
  | none => .error .unexpectedEof
  | some page =>
    match SlotHeader.parse page cfg.chunkSize with
    | .ok header => .ok (some header)
    | .error .free => .ok none
    | .error .corrupt => .ok none
    | .error .keyNotUtf8 => .ok none

def readBody (cfg : StoreConfig) (dir : Directory) (slot readLen : Nat) :
    Except IoError Bytes :=
  let loc := locate cfg.chunkSize slot
  match (dir loc.extent).readExactAt loc.bodyAt readLen with
  | none => .error .unexpectedEof
  | some body => .ok body

/-- The body length to read for `key`, or `none` when this slot is not
`key`'s. -/
def accept (key : String) (header : SlotHeader) : Option Nat :=
  if header.key ≠ key then none else some header.bodyLen.toNat

/-- `body` trimmed to `len` and checked, or `none` when it fails its CRC. -/
def verified (cfg : StoreConfig) (header : SlotHeader) (body : Bytes)
    (len : Nat) : Option CachedChunk :=
  let body := body.take len
  if cfg.verifyBody ∧ bodyCrc body ≠ header.bodyCrc then none
  else some { body := body, eTag := header.eTag }

def dependentReadLen (cfg : StoreConfig) (len : Nat) : Nat :=
  min (alignUp len) cfg.chunkSize

def readSlot (cfg : StoreConfig) (dir : Directory) (key : String)
    (slot : Nat) : Except IoError (Option CachedChunk) :=
  match readHeader cfg dir slot with
  | .error e => .error e
  | .ok none => .ok none
  | .ok (some header) =>
    match accept key header with
    | none => .ok none
    | some len =>
      match readBody cfg dir slot (dependentReadLen cfg len) with
      | .error e => .error e
      | .ok body => .ok (verified cfg header body len)

def overlapped (cfg : StoreConfig) (key : String)
    (header : Except IoError (Option SlotHeader))
    (body : Except IoError Bytes) : Except IoError (Option CachedChunk) :=
  match header with
  | .error e => .error e
  | .ok header =>
    match body with
    | .error e => .error e
    | .ok body =>
      match header with
      | none => .ok none
      | some header =>
        match accept key header with
        | none => .ok none
        | some len => .ok (verified cfg header body len)

def readOverlapped (cfg : StoreConfig) (dir : Directory) (key : String)
    (slot : Nat) : Except IoError (Option CachedChunk) :=
  overlapped cfg key (readHeader cfg dir slot)
    (readBody cfg dir slot cfg.chunkSize)

/-!
## Writes
-/

def writeBody (chunkSize : Nat) (dir : Directory) (slot : Nat) (body : Bytes) :
    Directory :=
  let loc := locate chunkSize slot
  Function.update dir loc.extent
    ((dir loc.extent).writeAllAt loc.bodyAt body)

def writeHeader (chunkSize : Nat) (dir : Directory) (slot : Nat)
    (page : Bytes) : Directory :=
  let loc := locate chunkSize slot
  Function.update dir loc.extent
    ((dir loc.extent).writeAllAt loc.headerAt page)

def blankPage : Bytes := List.replicate slotHeaderBytes 0

@[simp] theorem length_blankPage : blankPage.length = slotHeaderBytes :=
  List.length_replicate

/-!
## Frame laws

A body write reaches no header entry and no other slot's body; a header write
reaches no body and no other slot's header entry.
-/

variable {header : SlotHeader} {dir : Directory} {chunkSize slot : Nat}

theorem slice_update_of_disjoint {extent e off n pos : Nat} {bs : Bytes}
    (h : e = extent -> off + n ≤ pos ∨ pos + bs.length ≤ off) :
    (Function.update dir extent ((dir extent).writeAllAt pos bs) e).slice off n =
      (dir e).slice off n := by
  by_cases he : e = extent
  · rw [he, Function.update_self]
    exact ByteFile.slice_writeAllAt_of_disjoint (h he)
  · rw [Function.update_of_ne he]

theorem headerPage_writeBody (chunkSize : Nat) (dir : Directory)
    (slot : Nat) (body : Bytes) (s : Nat) :
    headerPage (writeBody chunkSize dir slot body) s = headerPage dir s := by
  have hend := headerOffset_add_le (within_lt s)
  have hbody :=
    headerRegionBytes_le_bodyOffset (slot % slotsPerExtent) chunkSize
  apply slice_update_of_disjoint
  intro _
  left
  exact Nat.le_trans hend hbody

@[simp] theorem slotHeader_writeBody (chunkSize : Nat) (dir : Directory)
    (slot : Nat) (body : Bytes) (s : Nat) :
    slotHeader chunkSize (writeBody chunkSize dir slot body) s =
      slotHeader chunkSize dir s := by
  rw [slotHeader, headerPage_writeBody, slotHeader]

variable {page : Bytes}

theorem headerPage_writeHeader_same (chunkSize : Nat) (dir : Directory)
    (slot : Nat) (hpage : page.length = slotHeaderBytes) :
    headerPage (writeHeader chunkSize dir slot page) slot = page := by
  have hslice := ByteFile.slice_writeAllAt_same (dir (slot / slotsPerExtent))
    (headerOffset (slot % slotsPerExtent)) page
  rw [hpage] at hslice
  simpa [headerPage, writeHeader, locate] using hslice

theorem headerPage_writeHeader_of_ne (chunkSize : Nat) (dir : Directory)
    {slot s : Nat} (hpage : page.length = slotHeaderBytes) (hne : s ≠ slot) :
    headerPage (writeHeader chunkSize dir slot page) s = headerPage dir s := by
  apply slice_update_of_disjoint
  intro hextent
  rw [hpage]
  apply headerOffset_disjoint
  intro hwithin
  exact hne (slot_eq_of_coordinates hextent hwithin)

theorem slotHeader_writeHeader_of_ne (chunkSize : Nat) (dir : Directory)
    {slot s : Nat} (hpage : page.length = slotHeaderBytes) (hne : s ≠ slot) :
    slotHeader chunkSize (writeHeader chunkSize dir slot page) s =
      slotHeader chunkSize dir s := by
  rw [slotHeader, headerPage_writeHeader_of_ne chunkSize dir hpage hne,
    slotHeader]

theorem slotHeader_writeHeader_same (dir : Directory) (slot : Nat)
    {header : SlotHeader} (hfits : header.Fits) :
    slotHeader chunkSize
        (writeHeader chunkSize dir slot (header.filled blankPage)) slot =
      if header.key = "" ∨ header.bodyLen.toNat > chunkSize then none
      else some header.normal := by
  have hlen := SlotHeader.length_filled hfits length_blankPage
  have hparse := SlotHeader.parse_filled hfits length_blankPage chunkSize
  rw [slotHeader, headerPage_writeHeader_same chunkSize dir slot hlen, hparse]
  split <;> rfl

theorem bodyBytes_writeHeader (chunkSize : Nat) (dir : Directory) (slot : Nat)
    (hpage : page.length = slotHeaderBytes) (s n : Nat) :
    bodyBytes chunkSize (writeHeader chunkSize dir slot page) s n =
      bodyBytes chunkSize dir s n := by
  have hend := headerOffset_add_le (within_lt slot)
  have hbody := headerRegionBytes_le_bodyOffset (s % slotsPerExtent) chunkSize
  apply slice_update_of_disjoint
  intro _
  right
  rw [hpage]
  exact Nat.le_trans hend hbody

theorem bodyBytes_writeBody_same (chunkSize : Nat) (dir : Directory)
    (slot : Nat) (body : Bytes) :
    bodyBytes chunkSize (writeBody chunkSize dir slot body) slot body.length =
      body := by
  have hslice := ByteFile.slice_writeAllAt_same (dir (slot / slotsPerExtent))
    (bodyOffset (slot % slotsPerExtent) chunkSize) body
  simpa [bodyBytes, writeBody, locate] using hslice

variable {body : Bytes}

theorem bodyBytes_writeBody_of_ne (dir : Directory) {slot s n : Nat}
    (hbody : body.length ≤ chunkSize) (hn : n ≤ chunkSize) (hne : s ≠ slot) :
    bodyBytes chunkSize (writeBody chunkSize dir slot body) s n =
      bodyBytes chunkSize dir s n := by
  apply slice_update_of_disjoint
  intro hextent
  have hdisjoint :
      bodyOffset (s % slotsPerExtent) chunkSize + chunkSize ≤
          bodyOffset (slot % slotsPerExtent) chunkSize ∨
        bodyOffset (slot % slotsPerExtent) chunkSize + chunkSize ≤
          bodyOffset (s % slotsPerExtent) chunkSize := by
    apply bodyOffset_disjoint
    intro hwithin
    exact hne (slot_eq_of_coordinates hextent hwithin)
  change _ ≤ bodyOffset (slot % slotsPerExtent) chunkSize ∨
    bodyOffset (slot % slotsPerExtent) chunkSize + _ ≤ _
  lia

theorem take_bodyBytes (chunkSize : Nat) (dir : Directory) (slot : Nat)
    {n m : Nat} (h : m ≤ n) :
    (bodyBytes chunkSize dir slot n).take m =
      bodyBytes chunkSize dir slot m :=
  ByteFile.take_slice h

/-!
## What a read returns
-/

variable {cfg : StoreConfig}

theorem readHeader_ok {answer : Option SlotHeader}
    (h : readHeader cfg dir slot = .ok answer) :
    answer = slotHeader cfg.chunkSize dir slot := by
  unfold readHeader at h
  dsimp only at h
  split at h
  · cases h
  rename_i page hread
  have hpage : page = headerPage dir slot :=
    ByteFile.readExactAt_some hread
  rw [hpage] at h
  unfold slotHeader
  cases hparse : SlotHeader.parse (headerPage dir slot) cfg.chunkSize with
  | ok header =>
    rw [hparse] at h
    cases h
    rfl
  | error state =>
    rw [hparse] at h
    cases state <;> cases h <;> rfl

theorem readBody_ok {slot n : Nat} (h : readBody cfg dir slot n = .ok body) :
    body = bodyBytes cfg.chunkSize dir slot n := by
  unfold readBody at h
  dsimp only at h
  split at h
  · cases h
  rename_i bytes hread
  cases h
  exact ByteFile.readExactAt_some hread

theorem accept_some {key : String} {len : Nat}
    (h : accept key header = some len) :
    header.key = key ∧ len = header.bodyLen.toNat := by
  unfold accept at h
  split at h
  · cases h
  rename_i hkey
  cases h
  exact ⟨not_not.mp hkey, rfl⟩

theorem verified_some {len : Nat} {chunk : CachedChunk}
    (h : verified cfg header body len = some chunk) :
    chunk = { body := body.take len, eTag := header.eTag } := by
  unfold verified at h
  dsimp only at h
  split at h
  · cases h
  · cases h
    rfl

section

variable (h : slotHeader chunkSize dir slot = some header)

include h

theorem slotHeader_some :
    SlotHeader.parse (headerPage dir slot) chunkSize = .ok header := by
  unfold slotHeader at h
  cases hparse : SlotHeader.parse (headerPage dir slot) chunkSize with
  | ok found =>
    rw [hparse] at h
    cases h
    rfl
  | error state =>
    rw [hparse] at h
    cases h

theorem slotHeader_bodyLen_le :
    header.bodyLen.toNat ≤ chunkSize :=
  (SlotHeader.parse_ok (slotHeader_some h)).left

theorem slotHeader_key_ne_empty : header.key ≠ "" :=
  SlotHeader.parse_key_ne_empty (ByteFile.length_slice _ _ _)
    (slotHeader_some h)

end

end Cache
end Pacer
