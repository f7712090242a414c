import Pacer.Cache.Disk
import Pacer.Cache.Index

/-!
# The chunk store

Opening a store sizes its extent files and rebuilds the index from the slot
headers; `get`, `put` and `remove` are the index critical sections with the
file operations between them, here run one call at a time.  The concurrent and
the crashing runs of later modules are made of the same pieces.
-/

namespace Pacer
namespace Cache

open Foundation
open Foundation.Buffer

structure Store where
  index : Index
  dir : Directory

inductive OpenError where
  | misaligned (message : String)
  | io (error : IoError)
deriving DecidableEq, Repr

/-!
## Opening
-/

def openExtent (f : ByteFile) (bytes : Nat) : ByteFile :=
  if f.len ≠ bytes then f.setLen bytes else f

def sizedTo (cfg : StoreConfig) (dir : Directory) : Directory :=
  fun index =>
    if index < cfg.extentCount then
      openExtent (dir index) (cfg.extentBytes index)
    else dir index

def openExtents (cfg : StoreConfig) (dir : Directory) :
    Except OpenError Directory :=
  if cfg.chunkSize % directIoAlign ≠ 0 then
    .error (.misaligned s!"chunk size {cfg.chunkSize} is not a multiple of the {directIoAlign}-byte direct-I/O alignment, so no slot body would be aligned and every direct read would fail")
  else
    .ok (sizedTo cfg dir)

/-- Read extent `index`'s header region and parse its first `slots` entries. -/
def scanExtent (cfg : StoreConfig) (dir : Directory) (index slots : Nat) :
    Except IoError (List (Option SlotHeader)) :=
  match (dir index).readExactAt 0 headerRegionBytes with
  | none => .error .unexpectedEof
  | some region =>
    .ok ((List.range slots).map fun within =>
      let entry := field region (within * slotHeaderBytes) slotHeaderBytes
      match SlotHeader.parse entry cfg.chunkSize with
      | .ok header => some header
      | .error .free => none
      | .error .corrupt => none
      | .error .keyNotUtf8 => none)

def asU32 (n : Nat) : Nat := n % 2 ^ 32

def Index.enter (idx : Index) (slot : Nat) : Option SlotHeader -> Index
  | some header =>
    idx.occupy slot header.key header.bodyLen header.bodyCrc
  | none => { idx with free := slot :: idx.free }

def Index.enterFrom : Nat -> Index -> List (Option SlotHeader) -> Index
  | _, idx, [] => idx
  | first, idx, header :: rest =>
    enterFrom (first + 1) (idx.enter (asU32 first) header) rest

def scanExtents (cfg : StoreConfig) (dir : Directory) :
    Nat -> Nat -> Index -> Except IoError Index
  | _, 0, idx => .ok idx
  | index, count + 1, idx =>
    match scanExtent cfg dir index (slotsInExtent cfg.slotCount index) with
    | .error e => .error e
    | .ok headers =>
      scanExtents cfg dir (index + 1) count
        (idx.enterFrom (index * slotsPerExtent) headers)

def scan (cfg : StoreConfig) (dir : Directory) : Except IoError Index :=
  scanExtents cfg dir 0 cfg.extentCount Index.empty

def openStore (cfg : StoreConfig) (dir : Directory) :
    Except OpenError Store :=
  match openExtents cfg dir with
  | .error e => .error e
  | .ok dir =>
    match scan cfg dir with
    | .error e => .error (.io e)
    | .ok index => .ok { index := index, dir := dir }

/-!
## Calls
-/

def putHeader (key : String) (chunk : CachedChunk) : SlotHeader :=
  { key := key,
    bodyLen := UInt32.ofNat chunk.body.length,
    bodyCrc := Cache.bodyCrc chunk.body,
    eTag := chunk.eTag }

def writeSlot (cfg : StoreConfig) (dir : Directory) (slot : Nat)
    (header : SlotHeader) (body : Bytes) : Except String Directory :=
  match header.writeTo blankPage with
  | .error message => .error message
  | .ok page =>
    .ok (writeHeader cfg.chunkSize (writeBody cfg.chunkSize dir slot body)
      slot page)

def writtenSlot (cfg : StoreConfig) (dir : Directory) (slot : Nat)
    (key : String) (chunk : CachedChunk) : Directory :=
  writeHeader cfg.chunkSize (writeBody cfg.chunkSize dir slot chunk.body) slot
    ((putHeader key chunk).filled blankPage)

def fetch (cfg : StoreConfig) (dir : Directory) (key : String) (slot : Nat) :
    Except IoError (Option CachedChunk) :=
  match cfg.readShape with
  | .twoRead => readSlot cfg dir key slot
  | .overlap => readOverlapped cfg dir key slot

def tooLong (cfg : StoreConfig) (chunk : CachedChunk) : String :=
  s!"chunk of {chunk.body.length} bytes exceeds the tier's {cfg.chunkSize} byte slot"

namespace Store

def get (cfg : StoreConfig) (st : Store) (key : String) :
    Except IoError (Option CachedChunk) × Store :=
  match st.index.touch key with
  | none => (.ok none, st)
  | some (slot, index) =>
    match fetch cfg st.dir key slot with
    | .ok (some chunk) => (.ok (some chunk), { st with index := index })
    | .ok none => (.ok none, { st with index := index.forget slot })
    | .error e => (.error e, { st with index := index })

def put (cfg : StoreConfig) (st : Store) (key : String)
    (chunk : CachedChunk) : Except String Unit × Store :=
  if chunk.body.length > cfg.chunkSize then
    (.error (tooLong cfg chunk), st)
  else
    let header := putHeader key chunk
    match st.index.claim key header with
    | none => (.ok (), st)
    | some (slot, index) =>
      match writeSlot cfg st.dir slot header chunk.body with
      | .ok dir => (.ok (), { index := index, dir := dir })
      | .error message =>
        (.error message, { st with index := index.forget slot })

def remove (st : Store) (key : String) : Bool × Store :=
  match st.index.remove key with
  | (held, index) => (held, { st with index := index })

end Store

inductive Op where
  | get (key : String)
  | put (key : String) (chunk : CachedChunk)
  | remove (key : String)
deriving DecidableEq, Repr

inductive Answer where
  | got (result : Except IoError (Option CachedChunk))
  | stored (result : Except String Unit)
  | removed (held : Bool)

namespace Store

def apply (cfg : StoreConfig) (st : Store) : Op -> Answer × Store
  | .get key =>
    match st.get cfg key with
    | (result, st) => (.got result, st)
  | .put key chunk =>
    match st.put cfg key chunk with
    | (result, st) => (.stored result, st)
  | .remove key =>
    match st.remove key with
    | (held, st) => (.removed held, st)

def after (cfg : StoreConfig) : Store -> List Op -> Store
  | st, [] => st
  | st, op :: rest => after cfg (st.apply cfg op).2 rest

def transcript (cfg : StoreConfig) : Store -> List Op -> List (Op × Answer)
  | _, [] => []
  | st, op :: rest =>
    (op, (st.apply cfg op).1) :: transcript cfg (st.apply cfg op).2 rest

end Store

/-!
## Sized directories

After opening, every extent of the tier has the length its slots need, and a
write to a slot of the tier keeps it.  Reads of such a directory succeed.
-/

def Sized (cfg : StoreConfig) (dir : Directory) : Prop :=
  forall index, index < cfg.extentCount ->
    (dir index).len = cfg.extentBytes index

variable {cfg : StoreConfig} {dir : Directory} {slot : Nat} {st : Store}
  {key : String}

theorem extent_lt_extentCount (h : slot < cfg.slotCount) :
    slot / slotsPerExtent < cfg.extentCount := by
  unfold StoreConfig.extentCount
  have hpos := slotsPerExtent_pos
  rw [Nat.lt_iff_add_one_le, Nat.le_div_iff_mul_le hpos, Nat.add_one_mul]
  have hle := Nat.div_mul_le_self slot slotsPerExtent
  lia

theorem slotCount_le_extents (cfg : StoreConfig) :
    cfg.slotCount ≤ cfg.extentCount * slotsPerExtent := by
  unfold StoreConfig.extentCount slotsPerExtent
  lia

theorem headerRegionBytes_le_extentBytes (cfg : StoreConfig) (index : Nat) :
    headerRegionBytes ≤ cfg.extentBytes index :=
  Nat.le_add_right _ _

theorem bodyEnd_le_extentBytes (h : slot < cfg.slotCount) :
    bodyOffset (slot % slotsPerExtent) cfg.chunkSize + cfg.chunkSize ≤
      cfg.extentBytes (slot / slotsPerExtent) :=
  bodyOffset_add_le ((lt_slotsInExtent_iff cfg.slotCount slot).mpr h)

theorem len_openExtent (f : ByteFile) (bytes : Nat) :
    (openExtent f bytes).len = bytes := by
  unfold openExtent
  split
  · rfl
  · rename_i h
    exact not_not.mp h

variable {n : Nat}

theorem slice_openExtent {f : ByteFile} {bytes off : Nat}
    (h : off + n ≤ bytes) :
    (openExtent f bytes).slice off n = f.slice off n := by
  unfold openExtent
  split
  · exact ByteFile.slice_setLen_of_le h
  · rfl

theorem sized_sizedTo (cfg : StoreConfig) (dir : Directory) :
    Sized cfg (sizedTo cfg dir) := by
  intro index hindex
  rw [sizedTo, if_pos hindex, len_openExtent]

theorem sizedTo_of_sized (h : Sized cfg dir) : sizedTo cfg dir = dir := by
  funext index
  unfold sizedTo
  split
  · rename_i hindex
    unfold openExtent
    rw [if_neg (not_not.mpr (h index hindex))]
  · rfl

theorem headerPage_sizedTo (cfg : StoreConfig) (dir : Directory)
    (slot : Nat) : headerPage (sizedTo cfg dir) slot = headerPage dir slot := by
  unfold headerPage sizedTo
  split
  · apply slice_openExtent
    have hend := headerOffset_add_le (within_lt slot)
    have hregion :=
      headerRegionBytes_le_extentBytes cfg (slot / slotsPerExtent)
    exact Nat.le_trans hend hregion
  · rfl

theorem slotHeader_sizedTo (cfg : StoreConfig) (dir : Directory)
    (chunkSize slot : Nat) :
    slotHeader chunkSize (sizedTo cfg dir) slot =
      slotHeader chunkSize dir slot := by
  rw [slotHeader, headerPage_sizedTo, slotHeader]

theorem bodyBytes_sizedTo (dir : Directory) {slot : Nat}
    (hslot : slot < cfg.slotCount) (hn : n ≤ cfg.chunkSize) :
    bodyBytes cfg.chunkSize (sizedTo cfg dir) slot n =
      bodyBytes cfg.chunkSize dir slot n := by
  unfold bodyBytes sizedTo
  rw [if_pos (extent_lt_extentCount hslot)]
  apply slice_openExtent
  have hend := bodyEnd_le_extentBytes hslot
  lia

theorem sized_update {slot off : Nat} {bs : Bytes} (h : Sized cfg dir)
    (hslot : slot < cfg.slotCount)
    (hend : off + bs.length ≤ cfg.extentBytes (slot / slotsPerExtent)) :
    Sized cfg (Function.update dir (slot / slotsPerExtent)
      ((dir (slot / slotsPerExtent)).writeAllAt off bs)) := by
  intro index hindex
  have hlen := h _ (extent_lt_extentCount hslot)
  rw [Function.update_apply]
  split
  · rename_i heq
    rw [ByteFile.len_writeAllAt_of_le (by rw [hlen]; exact hend), hlen, heq]
  · exact h index hindex

theorem sized_writeBody {body : Bytes} (h : Sized cfg dir)
    (hslot : slot < cfg.slotCount) (hbody : body.length ≤ cfg.chunkSize) :
    Sized cfg (writeBody cfg.chunkSize dir slot body) := by
  apply sized_update h hslot
  have hend := bodyEnd_le_extentBytes hslot
  change bodyOffset (slot % slotsPerExtent) cfg.chunkSize + _ ≤ _
  lia

theorem sized_writeHeader {page : Bytes} (h : Sized cfg dir)
    (hslot : slot < cfg.slotCount) (hpage : page.length = slotHeaderBytes) :
    Sized cfg (writeHeader cfg.chunkSize dir slot page) := by
  apply sized_update h hslot
  rw [hpage]
  exact Nat.le_trans (headerOffset_add_le (within_lt slot))
    (headerRegionBytes_le_extentBytes cfg _)

theorem readHeader_of_sized (h : Sized cfg dir) (hslot : slot < cfg.slotCount) :
    readHeader cfg dir slot = .ok (slotHeader cfg.chunkSize dir slot) := by
  have hlen := h _ (extent_lt_extentCount hslot)
  have hend := headerOffset_add_le (within_lt slot)
  have hregion := headerRegionBytes_le_extentBytes cfg (slot / slotsPerExtent)
  have hread : (dir (slot / slotsPerExtent)).readExactAt
      (headerOffset (slot % slotsPerExtent)) slotHeaderBytes =
        some (headerPage dir slot) :=
    ByteFile.readExactAt_of_le (by lia)
  unfold readHeader slotHeader
  simp only [locate, hread]
  cases SlotHeader.parse (headerPage dir slot) cfg.chunkSize with
  | ok header => rfl
  | error state => cases state <;> rfl

theorem readBody_of_sized {slot : Nat} (h : Sized cfg dir)
    (hslot : slot < cfg.slotCount) (hn : n ≤ cfg.chunkSize) :
    readBody cfg dir slot n = .ok (bodyBytes cfg.chunkSize dir slot n) := by
  have hlen := h _ (extent_lt_extentCount hslot)
  have hend := bodyEnd_le_extentBytes hslot
  have hread : (dir (slot / slotsPerExtent)).readExactAt
      (bodyOffset (slot % slotsPerExtent) cfg.chunkSize) n =
        some (bodyBytes cfg.chunkSize dir slot n) :=
    ByteFile.readExactAt_of_le (by lia)
  unfold readBody
  simp only [locate, hread]

/-!
## What the scan enters

The scan goes extent by extent; the index it builds is the one that enters the
header of every slot of the tier, in slot order.
-/

def scanned (cfg : StoreConfig) (dir : Directory) : Index :=
  Index.empty.enterFrom 0
    ((List.range cfg.slotCount).map (slotHeader cfg.chunkSize dir))

theorem enterFrom_append (first : Nat) (idx : Index)
    (front back : List (Option SlotHeader)) :
    idx.enterFrom first (front ++ back) =
      (idx.enterFrom first front).enterFrom (first + front.length) back := by
  induction front generalizing first idx with
  | nil => rfl
  | cons header rest ih =>
    rw [List.cons_append, Index.enterFrom, ih, Index.enterFrom,
      List.length_cons]
    congr 1
    lia

theorem scanExtent_of_le {index slots : Nat}
    (hlen : headerRegionBytes ≤ (dir index).len)
    (hslots : slots ≤ slotsPerExtent) :
    scanExtent cfg dir index slots =
      .ok ((List.range' (index * slotsPerExtent) slots).map
        (slotHeader cfg.chunkSize dir)) := by
  have hread : (dir index).readExactAt 0 headerRegionBytes =
      some ((dir index).slice 0 headerRegionBytes) :=
    ByteFile.readExactAt_of_le (by lia)
  unfold scanExtent
  simp only [hread]
  rw [List.range'_eq_map_range, List.map_map]
  apply congrArg Except.ok
  apply List.map_congr_left
  intro within hwithin
  have hlt : within < slotsPerExtent :=
    Nat.lt_of_lt_of_le (List.mem_range.mp hwithin) hslots
  have hdiv : (index * slotsPerExtent + within) / slotsPerExtent = index := by
    rw [Nat.mul_comm, Nat.mul_add_div slotsPerExtent_pos,
      Nat.div_eq_of_lt hlt, Nat.add_zero]
  have hmod : (index * slotsPerExtent + within) % slotsPerExtent = within := by
    rw [Nat.mul_comm, Nat.mul_add_mod, Nat.mod_eq_of_lt hlt]
  have hentry : field ((dir index).slice 0 headerRegionBytes)
      (within * slotHeaderBytes) slotHeaderBytes =
        headerPage dir (index * slotsPerExtent + within) := by
    have hend := headerOffset_add_le hlt
    have hwindow := ByteFile.window_slice (dir index) 0 hend
    rw [Nat.zero_add] at hwindow
    rw [headerPage, hdiv, hmod]
    exact hwindow
  simp only [hentry, Function.comp_apply, slotHeader]
  cases SlotHeader.parse (headerPage dir (index * slotsPerExtent + within))
      cfg.chunkSize with
  | ok header => rfl
  | error state => cases state <;> rfl

theorem scanExtents_eq {index count : Nat} (idx : Index)
    (hlen : forall e, e < index + count ->
      headerRegionBytes ≤ (dir e).len) :
    scanExtents cfg dir index count idx =
      .ok (idx.enterFrom (index * slotsPerExtent)
        ((List.range' (index * slotsPerExtent)
          (min cfg.slotCount ((index + count) * slotsPerExtent) -
            index * slotsPerExtent)).map
          (slotHeader cfg.chunkSize dir))) := by
  induction count generalizing index idx with
  | zero =>
    have hnone : min cfg.slotCount ((index + 0) * slotsPerExtent) -
        index * slotsPerExtent = 0 := by
      rw [Nat.add_zero]
      lia
    rw [hnone]
    rfl
  | succ count ih =>
    have hhere := hlen index (by lia)
    have hslots : slotsInExtent cfg.slotCount index ≤ slotsPerExtent :=
      Nat.min_le_right _ _
    have hassoc : index + 1 + count = index + (count + 1) := by lia
    rw [scanExtents, scanExtent_of_le hhere hslots]
    dsimp only
    rw [ih _ (fun e he => hlen e (by lia)), hassoc]
    apply congrArg Except.ok
    -- The extents before the last are full, and nothing follows the last.
    have hmul : (index + 1) * slotsPerExtent =
        index * slotsPerExtent + slotsPerExtent := Nat.add_one_mul _ _
    have hmul' : (index + 1) * slotsPerExtent ≤
        (index + (count + 1)) * slotsPerExtent :=
      Nat.mul_le_mul_right _ (by lia)
    generalize hlast : (index + (count + 1)) * slotsPerExtent = last at *
    generalize hstart : index * slotsPerExtent = start at *
    by_cases hfull : start + slotsPerExtent ≤ cfg.slotCount
    · have hcount : slotsInExtent cfg.slotCount index = slotsPerExtent := by
        unfold slotsInExtent
        lia
      have hsum : min cfg.slotCount last - start =
          slotsPerExtent +
            (min cfg.slotCount last - (start + slotsPerExtent)) := by
        lia
      rw [hcount, hmul, hsum, ← List.range'_append_1, List.map_append,
        enterFrom_append, List.length_map, List.length_range']
    · have hcount : min cfg.slotCount last - start =
          slotsInExtent cfg.slotCount index := by
        unfold slotsInExtent
        lia
      have hrest : min cfg.slotCount last - (index + 1) * slotsPerExtent =
          0 := by
        lia
      rw [hcount, hrest]
      rfl

theorem scan_of_sized (h : Sized cfg dir)
    : scan cfg dir = .ok (scanned cfg dir) := by
  have hlen : forall e, e < 0 + cfg.extentCount ->
      headerRegionBytes ≤ (dir e).len := by
    intro e he
    rw [h e (by lia)]
    exact headerRegionBytes_le_extentBytes cfg e
  have hcount : min cfg.slotCount ((0 + cfg.extentCount) * slotsPerExtent) -
      0 * slotsPerExtent = cfg.slotCount := by
    have hle := slotCount_le_extents cfg
    rw [Nat.zero_add]
    lia
  rw [scan, scanExtents_eq Index.empty hlen, hcount, Nat.zero_mul,
    ← List.range_eq_range']
  rfl

theorem openStore_of_aligned (dir : Directory)
    (h : cfg.chunkSize % directIoAlign = 0) :
    openStore cfg dir =
      .ok { index := scanned cfg (sizedTo cfg dir), dir := sizedTo cfg dir } := by
  simp [openStore, openExtents, h, scan_of_sized (sized_sizedTo cfg dir)]

theorem openStore_ok (h : openStore cfg dir = .ok st) :
    cfg.chunkSize % directIoAlign = 0 ∧
      st = { index := scanned cfg (sizedTo cfg dir),
             dir := sizedTo cfg dir } := by
  by_cases haligned : cfg.chunkSize % directIoAlign = 0
  · rw [openStore_of_aligned dir haligned] at h
    cases h
    exact ⟨haligned, rfl⟩
  · simp [openStore, openExtents, haligned] at h

theorem bounded_enterFrom {first : Nat} {idx : Index}
    {headers : List (Option SlotHeader)} (h : idx.Bounded n)
    (hle : first + headers.length ≤ n) :
    (idx.enterFrom first headers).Bounded n := by
  induction headers generalizing first idx with
  | nil => exact h
  | cons header rest ih =>
    rw [List.length_cons] at hle
    have hlt : asU32 first < n :=
      Nat.lt_of_le_of_lt (Nat.mod_le _ _) (by lia)
    apply ih _ (by lia)
    cases header with
    | none => exact h.push hlt
    | some found => exact h.occupy hlt _ _ _

theorem bounded_scanned (cfg : StoreConfig) (dir : Directory) :
    (scanned cfg dir).Bounded cfg.slotCount := by
  apply bounded_enterFrom (Index.bounded_empty _)
  simp

/-!
## What a call changes

A get and a remove change the index only.  A put that is not refused and not a
repetition claims a slot and writes it.
-/

namespace Store

theorem get_spec (cfg : StoreConfig) (st : Store) (key : String) :
    (st.index.touch key = none ∧ st.get cfg key = (.ok none, st)) ∨
      exists slot index, st.index.touch key = some (slot, index) ∧
        (st.get cfg key).1 = fetch cfg st.dir key slot ∧
        ((st.get cfg key).2 = { st with index := index } ∨
          (st.get cfg key).2 = { st with index := index.forget slot }) := by
  unfold get
  cases htouch : st.index.touch key with
  | none => exact Or.inl ⟨rfl, rfl⟩
  | some found =>
    rcases found with ⟨slot, index⟩
    refine Or.inr ⟨slot, index, rfl, ?_⟩
    dsimp only
    cases hfetch : fetch cfg st.dir key slot with
    | error e => exact ⟨rfl, Or.inl rfl⟩
    | ok answer =>
      cases answer with
      | none => exact ⟨rfl, Or.inr rfl⟩
      | some chunk => exact ⟨rfl, Or.inl rfl⟩

theorem get_fst_of_map (hmap : st.index.map key = some slot) :
    (st.get cfg key).1 = fetch cfg st.dir key slot := by
  rcases get_spec cfg st key with ⟨htouch, _⟩ | ⟨s, index, htouch, hfetch, _⟩
  · simp [Index.touch, hmap] at htouch
  · have hslot := (Index.touch_some htouch).left
    rw [hmap] at hslot
    cases hslot
    exact hfetch

theorem get_fst_of_not_map (hmap : st.index.map key = none)
    : (st.get cfg key).1 = .ok none := by
  simp [get, Index.touch, hmap]

theorem get_dir (cfg : StoreConfig) (st : Store) (key : String) :
    (st.get cfg key).2.dir = st.dir := by
  rcases get_spec cfg st key with ⟨_, h⟩ | ⟨slot, index, _, _, h | h⟩
  · rw [h]
  · rw [h]
  · rw [h]

theorem bounded_get (hbounded : st.index.Bounded n) (key : String) :
    (st.get cfg key).2.index.Bounded n := by
  rcases get_spec cfg st key with ⟨_, h⟩ | ⟨slot, index, htouch, _, h | h⟩
  · rw [h]
    exact hbounded
  · rw [h]
    exact (hbounded.touch htouch).left
  · rw [h]
    have hindex := hbounded.touch htouch
    exact hindex.left.forget hindex.right

theorem bounded_remove (hbounded : st.index.Bounded n) (key : String) :
    (st.remove key).2.index.Bounded n :=
  hbounded.remove key

theorem put_of_claim {chunk : CachedChunk} {index : Index}
    (hlen : chunk.body.length ≤ cfg.chunkSize)
    (hclaim : st.index.claim key (putHeader key chunk) = some (slot, index))
    (hfits : (putHeader key chunk).Fits) :
    st.put cfg key chunk =
      (.ok (), { index := index,
                 dir := writtenSlot cfg st.dir slot key chunk }) := by
  simp [put, Nat.not_lt.mpr hlen, hclaim, writeSlot,
    SlotHeader.writeTo_of_fits hfits, writtenSlot]

theorem after_put {chunk : CachedChunk} {index : Index} (rest : List Op)
    (hlen : chunk.body.length ≤ cfg.chunkSize)
    (hclaim : st.index.claim key (putHeader key chunk) = some (slot, index))
    (hfits : (putHeader key chunk).Fits) :
    st.after cfg (.put key chunk :: rest) =
      Store.after cfg
        { index := index, dir := writtenSlot cfg st.dir slot key chunk }
        rest := by
  rw [after, apply, put_of_claim hlen hclaim hfits]

theorem put_spec (cfg : StoreConfig) (st : Store) (key : String)
    (chunk : CachedChunk) :
    (st.put cfg key chunk).2 = st ∨
      exists slot index, chunk.body.length ≤ cfg.chunkSize ∧
        st.index.claim key (putHeader key chunk) = some (slot, index) ∧
        ((¬ (putHeader key chunk).Fits ∧
            (st.put cfg key chunk).2 =
              { st with index := index.forget slot }) ∨
          ((putHeader key chunk).Fits ∧
            (st.put cfg key chunk).2 =
              { index := index,
                dir := writtenSlot cfg st.dir slot key chunk })) := by
  unfold put
  split
  · exact Or.inl rfl
  · rename_i hlen
    dsimp only
    cases hclaim : st.index.claim key (putHeader key chunk) with
    | none => exact Or.inl rfl
    | some found =>
      rcases found with ⟨slot, index⟩
      refine Or.inr ⟨slot, index, Nat.not_lt.mp hlen, rfl, ?_⟩
      by_cases hfits : (putHeader key chunk).Fits
      · right
        simp [writeSlot, SlotHeader.writeTo_of_fits hfits, hfits, writtenSlot]
      · left
        rcases SlotHeader.writeTo_error_of_not_fits hfits blankPage with
          ⟨message, hmessage⟩
        simp [writeSlot, hmessage, hfits]

end Store

/-!
## The layout as a whole
-/

theorem sum_slotsInExtent (slotCount extents : Nat) :
    ((List.range extents).map (slotsInExtent slotCount)).sum =
      min slotCount (extents * slotsPerExtent) := by
  induction extents with
  | zero => simp
  | succ extents ih =>
    rw [List.range_succ, List.map_append, List.sum_append, ih,
      Nat.add_one_mul]
    simp only [List.map_cons, List.map_nil, List.sum_cons, List.sum_nil]
    unfold slotsInExtent
    lia

theorem sum_extentBytes (cfg : StoreConfig) (extents : Nat) :
    ((List.range extents).map cfg.extentBytes).sum =
      extents * headerRegionBytes +
        ((List.range extents).map (slotsInExtent cfg.slotCount)).sum *
          cfg.chunkSize := by
  induction extents with
  | zero => simp
  | succ extents ih =>
    rw [List.range_succ, List.map_append, List.map_append, List.sum_append,
      List.sum_append, ih, Nat.add_one_mul, Nat.add_mul]
    simp only [List.map_cons, List.map_nil, List.sum_cons, List.sum_nil,
      StoreConfig.extentBytes]
    lia

def RangesApart (off len off' len' : Nat) : Prop :=
  off + len ≤ off' ∨ off' + len' ≤ off

structure LaidOut (cfg : StoreConfig) : Prop where
  opened : forall slot, slot < cfg.slotCount ->
    (locate cfg.chunkSize slot).extent < cfg.extentCount
  inside : forall slot, slot < cfg.slotCount ->
    let loc := locate cfg.chunkSize slot
    loc.headerAt + slotHeaderBytes ≤ cfg.extentBytes loc.extent ∧
      loc.bodyAt + cfg.chunkSize ≤ cfg.extentBytes loc.extent
  aligned : forall slot, directIoAlign ∣ (locate cfg.chunkSize slot).headerAt ∧
    directIoAlign ∣ (locate cfg.chunkSize slot).bodyAt
  headers : forall slot other, slot ≠ other ->
    (locate cfg.chunkSize slot).extent = (locate cfg.chunkSize other).extent ->
    RangesApart (locate cfg.chunkSize slot).headerAt slotHeaderBytes
      (locate cfg.chunkSize other).headerAt slotHeaderBytes
  bodies : forall slot other, slot ≠ other ->
    (locate cfg.chunkSize slot).extent = (locate cfg.chunkSize other).extent ->
    RangesApart (locate cfg.chunkSize slot).bodyAt cfg.chunkSize
      (locate cfg.chunkSize other).bodyAt cfg.chunkSize
  mixed : forall slot other,
    RangesApart (locate cfg.chunkSize slot).headerAt slotHeaderBytes
      (locate cfg.chunkSize other).bodyAt cfg.chunkSize
  counted : ((List.range cfg.extentCount).map
    (slotsInExtent cfg.slotCount)).sum = cfg.slotCount
  sized : ((List.range cfg.extentCount).map cfg.extentBytes).sum ≤
    cfg.extentCount * headerRegionBytes + cfg.slotCount * cfg.chunkSize

/-- The body read of either shape is as long as the body, whole pages, and
within the slot. -/
def ReadsInside (cfg : StoreConfig) (len readLen : Nat) : Prop :=
  len ≤ readLen ∧ directIoAlign ∣ readLen ∧ readLen ≤ cfg.chunkSize

theorem apart_of_ne {other : Nat} (hne : slot ≠ other)
    (hextent : slot / slotsPerExtent = other / slotsPerExtent) :
    slot % slotsPerExtent ≠ other % slotsPerExtent :=
  fun hwithin => hne (slot_eq_of_coordinates hextent hwithin)

theorem laidOut (halign : directIoAlign ∣ cfg.chunkSize) : LaidOut cfg := by
  have hregion : directIoAlign ∣ headerRegionBytes := by decide
  have hheader : directIoAlign ∣ slotHeaderBytes := by decide
  have hcounted : ((List.range cfg.extentCount).map
      (slotsInExtent cfg.slotCount)).sum = cfg.slotCount := by
    rw [sum_slotsInExtent, Nat.min_eq_left (slotCount_le_extents cfg)]
  constructor
  · intro slot hslot
    exact extent_lt_extentCount hslot
  · intro slot hslot
    constructor
    · exact Nat.le_trans (headerOffset_add_le (within_lt slot))
        (headerRegionBytes_le_extentBytes cfg _)
    · exact bodyEnd_le_extentBytes hslot
  · intro slot
    constructor
    · exact Nat.dvd_mul_left_of_dvd hheader _
    · exact Nat.dvd_add hregion (Nat.dvd_mul_left_of_dvd halign _)
  · intro slot other hne hextent
    exact headerOffset_disjoint (apart_of_ne hne hextent)
  · intro slot other hne hextent
    exact bodyOffset_disjoint (apart_of_ne hne hextent)
  · intro slot other
    exact Or.inl (Nat.le_trans (headerOffset_add_le (within_lt slot))
      (headerRegionBytes_le_bodyOffset _ _))
  · exact hcounted
  · rw [sum_extentBytes, hcounted]

theorem readsInside_dependent (halign : directIoAlign ∣ cfg.chunkSize)
    {len : Nat} (hlen : len ≤ cfg.chunkSize) :
    ReadsInside cfg len (dependentReadLen cfg len) := by
  unfold ReadsInside dependentReadLen
  refine ⟨?_, ?_, Nat.min_le_right _ _⟩
  · exact Nat.le_min.mpr ⟨alignUp_ge len, hlen⟩
  · rcases Nat.le_total (alignUp len) cfg.chunkSize with hle | hge
    · rw [Nat.min_eq_left hle]
      exact Nat.dvd_mul_left _ _
    · rw [Nat.min_eq_right hge]
      exact halign

/-- No two ranges of the layout overlap, every slot is inside an extent that is
opened, the reads of an accepted header stay in its body, and no offset or
extent length leaves 64 bits. -/
theorem layout_never_overlaps (cfg : StoreConfig)
    (halign : directIoAlign ∣ cfg.chunkSize) (hsize : cfg.chunkSize < 2 ^ 32)
    (hslots : cfg.slotCount ≤ 2 ^ 32) :
    LaidOut cfg ∧
      (forall page header, SlotHeader.parse page cfg.chunkSize = .ok header ->
        ReadsInside cfg header.bodyLen.toNat
            (dependentReadLen cfg header.bodyLen.toNat) ∧
          ReadsInside cfg header.bodyLen.toNat cfg.chunkSize) ∧
      forall index, index < cfg.extentCount ->
        0 < slotsInExtent cfg.slotCount index ∧
          index * slotsPerExtent < 2 ^ 64 ∧ cfg.extentBytes index < 2 ^ 64 := by
  refine ⟨laidOut halign, ?_, ?_⟩
  · intro page header hparse
    have hlen := (SlotHeader.parse_ok hparse).left
    exact ⟨readsInside_dependent halign hlen, hlen, halign, Nat.le_refl _⟩
  · intro index hindex
    have hbefore : index * slotsPerExtent < cfg.slotCount := by
      unfold StoreConfig.extentCount slotsPerExtent at hindex
      unfold slotsPerExtent
      lia
    have hfew : slotsInExtent cfg.slotCount index ≤ slotsPerExtent :=
      Nat.min_le_right _ _
    have hbodies : slotsInExtent cfg.slotCount index * cfg.chunkSize ≤
        slotsPerExtent * 2 ^ 32 := Nat.mul_le_mul hfew (Nat.le_of_lt hsize)
    have hregion : headerRegionBytes + slotsPerExtent * 2 ^ 32 < 2 ^ 64 := by
      decide
    refine ⟨?_, ?_, ?_⟩
    · unfold slotsInExtent slotsPerExtent
      unfold slotsPerExtent at hbefore
      lia
    · lia
    · unfold StoreConfig.extentBytes
      lia

theorem layout_never_overlaps_two_pages :
    LaidOut ⟨8192, 100000, true, .twoRead⟩ :=
  (layout_never_overlaps ⟨8192, 100000, true, .twoRead⟩ (by decide) (by decide)
    (by decide)).left

end Cache
end Pacer
