import Pacer.Cache.Store

/-!
# Where served bytes come from

A slot is consistent when the bytes its header names are those of one chunk
that a put of the header's key was called with.  A hit on a consistent slot
returns such a chunk.  The module says which file operations keep a slot
consistent; what a run of calls keeps consistent is for the modules of the
different kinds of runs.
-/

namespace Pacer
namespace Cache

open Foundation

/-- `puts key chunk` says that a put was called with `key` and `chunk`. -/
abbrev Puts := String -> CachedChunk -> Prop

/-- The chunk is what a put of `key` stored: its body, and what a slot keeps of
its ETag. -/
def StoredBy (puts : Puts) (key : String) (chunk : CachedChunk) : Prop :=
  exists given, puts key given ∧ chunk.body = given.body ∧
    chunk.eTag = SlotHeader.witness given.eTag

def shown (chunkSize : Nat) (dir : Directory) (slot : Nat)
    (header : SlotHeader) : CachedChunk :=
  { body := bodyBytes chunkSize dir slot header.bodyLen.toNat,
    eTag := header.eTag }

/-- A readable slot shows its header's key a chunk that is `good` for it. -/
def Shows (good : Puts) (chunkSize : Nat) (dir : Directory) (slot : Nat) :
    Prop :=
  forall header, slotHeader chunkSize dir slot = some header ->
    good header.key (shown chunkSize dir slot header)

abbrev Consistent (puts : Puts) : Nat -> Directory -> Nat -> Prop :=
  Shows (StoredBy puts)

variable {cfg : StoreConfig} {dir : Directory} {chunk : CachedChunk}
  {key : String} {slot chunkSize : Nat} {good : Puts}

theorem shows_of_free (h : slotHeader chunkSize dir slot = none) :
    Shows good chunkSize dir slot := by
  intro header hheader
  rw [h] at hheader
  cases hheader

theorem Shows.mono {good more : Puts} (h : Shows good chunkSize dir slot)
    (hmore : forall key chunk, good key chunk -> more key chunk) :
    Shows more chunkSize dir slot :=
  fun header hheader => hmore _ _ (h header hheader)

theorem Shows.congr {dir dir' : Directory} (h : Shows good chunkSize dir slot)
    (hheader : slotHeader chunkSize dir' slot = slotHeader chunkSize dir slot)
    (hbody : forall n, n ≤ chunkSize ->
      bodyBytes chunkSize dir' slot n = bodyBytes chunkSize dir slot n) :
    Shows good chunkSize dir' slot := by
  intro header hfound
  rw [hheader] at hfound
  have hle := slotHeader_bodyLen_le hfound
  have hshown : shown chunkSize dir' slot header =
      shown chunkSize dir slot header := by
    rw [shown, hbody _ hle, shown]
  rw [hshown]
  exact h header hfound

/-!
## Writes
-/

theorem Shows.writeBody_of_ne {slot s : Nat} {body : Bytes}
    (h : Shows good chunkSize dir s) (hbody : body.length ≤ chunkSize)
    (hne : s ≠ slot) :
    Shows good chunkSize (writeBody chunkSize dir slot body) s := by
  apply h.congr
  · exact slotHeader_writeBody chunkSize dir slot body s
  · intro n hn
    exact bodyBytes_writeBody_of_ne dir hbody hn hne

theorem Shows.writeHeader_of_ne {slot s : Nat} {page : Bytes}
    (h : Shows good chunkSize dir s) (hpage : page.length = slotHeaderBytes)
    (hne : s ≠ slot) :
    Shows good chunkSize (writeHeader chunkSize dir slot page) s := by
  apply h.congr
  · exact slotHeader_writeHeader_of_ne chunkSize dir hpage hne
  · intro n _
    exact bodyBytes_writeHeader chunkSize dir slot hpage s n

theorem putHeader_bodyLen (h : chunk.body.length < 2 ^ 32) :
    (putHeader key chunk).bodyLen.toNat = chunk.body.length := by
  simp only [putHeader, UInt32.toNat_ofNat']
  exact Nat.mod_eq_of_lt h

theorem consistent_writeHeader_same {puts : Puts} (hput : puts key chunk)
    (hfits : (putHeader key chunk).Fits) (hlen : chunk.body.length < 2 ^ 32)
    (hbody : bodyBytes cfg.chunkSize dir slot chunk.body.length =
      chunk.body) :
    Consistent puts cfg.chunkSize
      (writeHeader cfg.chunkSize dir slot
        ((putHeader key chunk).filled blankPage)) slot := by
  intro header hheader
  rw [slotHeader_writeHeader_same dir slot hfits] at hheader
  split at hheader
  · cases hheader
  cases hheader
  refine ⟨chunk, hput, ?_, rfl⟩
  change bodyBytes cfg.chunkSize _ slot
    (putHeader key chunk).bodyLen.toNat = chunk.body
  have hpage := SlotHeader.length_filled hfits length_blankPage
  rw [bodyBytes_writeHeader cfg.chunkSize dir slot hpage,
    putHeader_bodyLen hlen, hbody]

theorem slotHeader_written (dir : Directory) (slot : Nat) {key : String}
    {chunk : CachedChunk} (hkey : key ≠ "")
    (hlen : chunk.body.length ≤ cfg.chunkSize)
    (hfits : (putHeader key chunk).Fits) :
    slotHeader cfg.chunkSize
        (writeHeader cfg.chunkSize dir slot
          ((putHeader key chunk).filled blankPage)) slot =
      some (putHeader key chunk).normal := by
  have hle : (putHeader key chunk).bodyLen.toNat ≤ chunk.body.length := by
    simp only [putHeader, UInt32.toNat_ofNat']
    exact Nat.mod_le _ _
  rw [slotHeader_writeHeader_same dir slot hfits, if_neg]
  rintro (hempty | hlong)
  · exact hkey hempty
  · lia

/-!
## A whole put
-/

section WrittenSlot

variable {cfg : StoreConfig} {key : String} {chunk : CachedChunk}

theorem slotHeader_writtenSlot_of_ne (dir : Directory) {slot s : Nat}
    (hfits : (putHeader key chunk).Fits) (hne : s ≠ slot) :
    slotHeader cfg.chunkSize (writtenSlot cfg dir slot key chunk) s =
      slotHeader cfg.chunkSize dir s := by
  have hpage := SlotHeader.length_filled hfits length_blankPage
  rw [writtenSlot, slotHeader_writeHeader_of_ne cfg.chunkSize _ hpage hne,
    slotHeader_writeBody]

theorem bodyBytes_writtenSlot_same (dir : Directory) (slot : Nat)
    (hfits : (putHeader key chunk).Fits) :
    bodyBytes cfg.chunkSize (writtenSlot cfg dir slot key chunk) slot
      chunk.body.length = chunk.body := by
  have hpage := SlotHeader.length_filled hfits length_blankPage
  rw [writtenSlot, bodyBytes_writeHeader cfg.chunkSize _ slot hpage,
    bodyBytes_writeBody_same]

theorem bodyBytes_writtenSlot_of_ne (dir : Directory) {slot s n : Nat}
    (hfits : (putHeader key chunk).Fits)
    (hlen : chunk.body.length ≤ cfg.chunkSize) (hn : n ≤ cfg.chunkSize)
    (hne : s ≠ slot) :
    bodyBytes cfg.chunkSize (writtenSlot cfg dir slot key chunk) s n =
      bodyBytes cfg.chunkSize dir s n := by
  have hpage := SlotHeader.length_filled hfits length_blankPage
  rw [writtenSlot, bodyBytes_writeHeader cfg.chunkSize _ slot hpage,
    bodyBytes_writeBody_of_ne dir hlen hn hne]

theorem sized_writtenSlot (hsized : Sized cfg dir)
    (hslot : slot < cfg.slotCount) (hlen : chunk.body.length ≤ cfg.chunkSize)
    (hfits : (putHeader key chunk).Fits) :
    Sized cfg (writtenSlot cfg dir slot key chunk) :=
  sized_writeHeader (sized_writeBody hsized hslot hlen) hslot
    (SlotHeader.length_filled hfits length_blankPage)

end WrittenSlot

/-!
## Reads
-/

variable {len : Nat}

theorem le_dependentReadLen (h : len ≤ cfg.chunkSize) :
    len ≤ dependentReadLen cfg len :=
  Nat.le_min.mpr ⟨alignUp_ge len, h⟩

theorem dependentReadLen_le (cfg : StoreConfig) (len : Nat) :
    dependentReadLen cfg len ≤ cfg.chunkSize :=
  Nat.min_le_right _ _

variable {header : SlotHeader}

theorem good_of_verified {body : Bytes}
    (hshown : good header.key
      { body := body.take header.bodyLen.toNat, eTag := header.eTag })
    (haccept : accept key header = some len)
    (hverified : verified cfg header body len = some chunk) :
    good key chunk := by
  rcases accept_some haccept with ⟨hkey, hlen⟩
  rw [verified_some hverified, hlen, ← hkey]
  exact hshown

theorem overlapped_some {header : Except IoError (Option SlotHeader)}
    {body : Except IoError Bytes}
    (h : overlapped cfg key header body = .ok (some chunk)) :
    exists found bytes len, header = .ok (some found) ∧ body = .ok bytes ∧
      accept key found = some len ∧
      verified cfg found bytes len = some chunk := by
  unfold overlapped at h
  cases header with
  | error e => cases h
  | ok answer =>
    cases body with
    | error e => cases h
    | ok bytes =>
      cases answer with
      | none => cases h
      | some found =>
        cases haccept : accept key found with
        | none => simp [haccept] at h
        | some len =>
          simp only [haccept, Except.ok.injEq] at h
          exact ⟨found, bytes, len, rfl, rfl, haccept, h⟩

def slotAnswer (cfg : StoreConfig) (dir : Directory) (key : String)
    (slot : Nat) : Option CachedChunk :=
  match slotHeader cfg.chunkSize dir slot with
  | none => none
  | some header =>
    match accept key header with
    | none => none
    | some len =>
      verified cfg header (bodyBytes cfg.chunkSize dir slot len) len

theorem verified_bodyBytes (header : SlotHeader) {n : Nat} (h : len ≤ n) :
    verified cfg header (bodyBytes chunkSize dir slot n) len =
      verified cfg header (bodyBytes chunkSize dir slot len) len := by
  simp [verified, take_bodyBytes chunkSize dir slot h,
    take_bodyBytes chunkSize dir slot (Nat.le_refl len)]

variable {answer : Option CachedChunk}

theorem readSlot_ok (h : readSlot cfg dir key slot = .ok answer) :
    answer = slotAnswer cfg dir key slot := by
  unfold readSlot at h
  unfold slotAnswer
  cases hread : readHeader cfg dir slot with
  | error e => simp [hread] at h
  | ok found =>
    have hheader := readHeader_ok hread
    rw [← hheader]
    cases found with
    | none => simpa [hread] using h.symm
    | some header =>
      cases haccept : accept key header with
      | none => simpa [hread, haccept] using h.symm
      | some len =>
        have hle := slotHeader_bodyLen_le hheader.symm
        rw [← (accept_some haccept).right] at hle
        cases hbody : readBody cfg dir slot (dependentReadLen cfg len) with
        | error e => simp [hread, haccept, hbody] at h
        | ok body =>
          simp only [hread, haccept, hbody, Except.ok.injEq] at h ⊢
          rw [← h, readBody_ok hbody]
          exact verified_bodyBytes header (le_dependentReadLen hle)

theorem fetch_ok (h : fetch cfg dir key slot = .ok answer) :
    answer = slotAnswer cfg dir key slot := by
  unfold fetch at h
  split at h
  · exact readSlot_ok h
  · unfold readOverlapped overlapped at h
    unfold slotAnswer
    cases hread : readHeader cfg dir slot with
    | error e => simp [hread] at h
    | ok found =>
      have hheader := readHeader_ok hread
      rw [← hheader]
      cases hbody : readBody cfg dir slot cfg.chunkSize with
      | error e => simp [hread, hbody] at h
      | ok body =>
        cases found with
        | none => simpa [hread, hbody] using h.symm
        | some header =>
          cases haccept : accept key header with
          | none => simpa [hread, hbody, haccept] using h.symm
          | some len =>
            have hle := slotHeader_bodyLen_le hheader.symm
            rw [← (accept_some haccept).right] at hle
            simp only [hread, hbody, haccept, Except.ok.injEq] at h ⊢
            rw [← h, readBody_ok hbody]
            exact verified_bodyBytes header hle

theorem Shows.fetch (hslot : Shows good cfg.chunkSize dir slot)
    (h : Cache.fetch cfg dir key slot = .ok (some chunk)) :
    good key chunk := by
  have hanswer := fetch_ok h
  unfold slotAnswer at hanswer
  split at hanswer
  · cases hanswer
  rename_i header hheader
  split at hanswer
  · cases hanswer
  rename_i len haccept
  apply good_of_verified _ haccept hanswer.symm
  rw [(accept_some haccept).right, take_bodyBytes _ dir slot (Nat.le_refl _)]
  exact hslot header hheader

theorem fetch_of_intact (hsized : Sized cfg dir) (hslot : slot < cfg.slotCount)
    (hheader : slotHeader cfg.chunkSize dir slot = some header)
    (hintact : cfg.verifyBody = true ->
      bodyCrc (shown cfg.chunkSize dir slot header).body = header.bodyCrc) :
    fetch cfg dir header.key slot =
      .ok (some (shown cfg.chunkSize dir slot header)) := by
  have hle := slotHeader_bodyLen_le hheader
  have hread := readHeader_of_sized hsized hslot
  rw [hheader] at hread
  have haccept : accept header.key header = some header.bodyLen.toNat := by
    simp [accept]
  have hpass : ¬ (cfg.verifyBody = true ∧
      bodyCrc (bodyBytes cfg.chunkSize dir slot header.bodyLen.toNat) ≠
        header.bodyCrc) :=
    fun hfail => hfail.2 (hintact hfail.1)
  unfold fetch
  cases cfg.readShape with
  | twoRead =>
    have hbody := readBody_of_sized hsized hslot
      (dependentReadLen_le cfg header.bodyLen.toNat)
    have htake := take_bodyBytes cfg.chunkSize dir slot (le_dependentReadLen hle)
    simp only [readSlot, hread, haccept, hbody, verified, htake,
      if_neg hpass, shown]
  | overlap =>
    have hbody := readBody_of_sized hsized hslot (Nat.le_refl cfg.chunkSize)
    have htake := take_bodyBytes cfg.chunkSize dir slot hle
    simp only [readOverlapped, overlapped, hread, haccept, hbody, verified,
      htake, if_neg hpass, shown]

theorem fetch_of_shown (hsized : Sized cfg dir) (hslot : slot < cfg.slotCount)
    (hverify : cfg.verifyBody = false)
    (hheader : slotHeader cfg.chunkSize dir slot = some header) :
    fetch cfg dir header.key slot =
      .ok (some (shown cfg.chunkSize dir slot header)) := by
  apply fetch_of_intact hsized hslot hheader
  intro hverified
  rw [hverify] at hverified
  cases hverified

theorem fetch_of_mismatch (hsized : Sized cfg dir)
    (hslot : slot < cfg.slotCount) (hother : forall header,
      slotHeader cfg.chunkSize dir slot = some header -> header.key ≠ key) :
    fetch cfg dir key slot = .ok none := by
  have hread := readHeader_of_sized hsized hslot
  have hbody := readBody_of_sized hsized hslot (Nat.le_refl cfg.chunkSize)
  unfold fetch
  cases hheader : slotHeader cfg.chunkSize dir slot with
  | none =>
    rw [hheader] at hread
    cases cfg.readShape with
    | twoRead => simp [readSlot, hread]
    | overlap => simp [readOverlapped, overlapped, hread, hbody]
  | some header =>
    rw [hheader] at hread
    have haccept : accept key header = none := by
      simp [accept, hother header hheader]
    cases cfg.readShape with
    | twoRead => simp [readSlot, hread, haccept]
    | overlap => simp [readOverlapped, overlapped, hread, hbody, haccept]

theorem good_of_get {st : Store} (hbounded : st.index.Bounded cfg.slotCount)
    (hslots : forall slot, slot < cfg.slotCount ->
      Shows good cfg.chunkSize st.dir slot)
    (h : (st.get cfg key).1 = .ok (some chunk)) : good key chunk := by
  rcases Store.get_spec cfg st key with ⟨_, hmiss⟩ | ⟨slot, index, htouch, hfetch, _⟩
  · rw [hmiss] at h
    cases h
  · rw [hfetch] at h
    exact (hslots slot (hbounded.touch htouch).right).fetch h

/-!
## A fresh directory
-/

def noFiles : Directory := fun _ => ByteFile.empty

theorem slotHeader_noFiles (chunkSize slot : Nat) :
    slotHeader chunkSize noFiles slot = none := by
  have hpage : headerPage noFiles slot =
      List.replicate slotHeaderBytes 0 := by
    unfold headerPage noFiles ByteFile.slice
    simp only [ByteFile.get_empty, List.map_const', List.length_range]
  rw [slotHeader, hpage, SlotHeader.parse_zeros]
  rfl

/-!
## A small tier

Concrete runs are taken on the smallest tier of a given number of slots, with
one-byte bodies.
-/

def pageStore (slots : Nat) : StoreConfig :=
  { chunkSize := 4096,
    capacityBytes := slots * 8192,
    verifyBody := false,
    readShape := .twoRead }

def single (byte : UInt8) : CachedChunk := { body := [byte], eTag := none }

theorem slotCount_pageStore {slots : Nat} (h : 0 < slots) :
    (pageStore slots).slotCount = slots := by
  have hslot : slotHeaderBytes + 4096 = 8192 := rfl
  show max (slots * 8192 / (slotHeaderBytes + 4096)) 1 = slots
  rw [hslot, Nat.mul_div_cancel slots (by decide)]
  lia

theorem slotCount_pageStore_one : (pageStore 1).slotCount ≤ 2 ^ 32 := by
  rw [slotCount_pageStore Nat.one_pos]
  decide

theorem zero_lt_slotCount_pageStore (slots : Nat) :
    0 < (pageStore slots).slotCount :=
  Nat.le_max_right _ _

theorem aligned_pageStore (slots : Nat) :
    (pageStore slots).chunkSize % directIoAlign = 0 := by
  show 4096 % directIoAlign = 0
  decide

theorem fits_single (byte : UInt8)
    (h : (Buffer.utf8 key).length ≤ maxKeyBytes) :
    (putHeader key (single byte)).Fits := by
  refine ⟨h, ?_⟩
  show (Buffer.utf8 "").length ≤ maxETagBytes
  decide

theorem length_single_le (byte : UInt8) (slots : Nat) :
    (single byte).body.length ≤ (pageStore slots).chunkSize := by
  show 1 ≤ 4096
  lia

theorem fits_a (byte : UInt8) : (putHeader "a" (single byte)).Fits :=
  fits_single byte (by decide)

theorem fits_b (byte : UInt8) : (putHeader "b" (single byte)).Fits :=
  fits_single byte (by decide)

theorem slotHeader_a (dir : Directory) (slot : Nat) (byte : UInt8)
    (slots : Nat) :
    slotHeader (pageStore slots).chunkSize
        (writeHeader (pageStore slots).chunkSize dir slot
          ((putHeader "a" (single byte)).filled blankPage)) slot =
      some (putHeader "a" (single byte)) :=
  slotHeader_written dir slot (by decide) (length_single_le byte slots)
    (fits_a byte)

theorem scanned_noFiles (cfg : StoreConfig) :
    scanned cfg (sizedTo cfg noFiles) =
      Index.empty.enterFrom 0 (List.replicate cfg.slotCount none) := by
  have hnone : slotHeader cfg.chunkSize (sizedTo cfg noFiles) =
      fun _ => none := by
    funext slot
    rw [slotHeader_sizedTo, slotHeader_noFiles]
  rw [scanned, hnone, List.map_const', List.length_range]

theorem openStore_oneSlot :
    openStore (pageStore 1) noFiles =
      .ok { index := { Index.empty with free := [0] },
            dir := sizedTo (pageStore 1) noFiles } := by
  rw [openStore_of_aligned noFiles (aligned_pageStore 1), scanned_noFiles,
    slotCount_pageStore Nat.one_pos]
  rfl

theorem openStore_twoSlots :
    openStore (pageStore 2) noFiles =
      .ok { index := { Index.empty with free := [1, 0] },
            dir := sizedTo (pageStore 2) noFiles } := by
  rw [openStore_of_aligned noFiles (aligned_pageStore 2), scanned_noFiles,
    slotCount_pageStore Nat.two_pos]
  rfl

/-!
## Read shapes
-/

theorem slotAnswer_withShape (cfg : StoreConfig) (shape : ReadShape)
    (dir : Directory) (key : String) (slot : Nat) :
    slotAnswer { cfg with readShape := shape } dir key slot =
      slotAnswer cfg dir key slot := by
  unfold slotAnswer
  cases slotHeader cfg.chunkSize dir slot with
  | none => rfl
  | some header => rfl

theorem get_of_ok {st after : Store} {shape : ReadShape}
    (h : st.get { cfg with readShape := shape } key = (.ok answer, after)) :
    (answer, after) = match st.index.touch key with
      | none => (none, st)
      | some (slot, index) =>
        match slotAnswer cfg st.dir key slot with
        | some chunk => (some chunk, { st with index := index })
        | none => (none, { st with index := index.forget slot }) := by
  unfold Store.get at h
  cases htouch : st.index.touch key with
  | none =>
    rw [htouch] at h
    cases h
    rfl
  | some hit =>
    rw [htouch] at h
    dsimp only at h ⊢
    cases hfetch : fetch { cfg with readShape := shape } st.dir key hit.1 with
    | error e =>
      rw [hfetch] at h
      cases h
    | ok found =>
      rw [← slotAnswer_withShape cfg shape, ← fetch_ok hfetch]
      rw [hfetch] at h
      cases found <;> cases h <;> rfl

/-- Without a failed read, the two shapes answer the same and leave the same
store, whatever the slot holds. -/
theorem read_shapes_agree (cfg : StoreConfig) (st : Store) (key : String)
    {first second : Option CachedChunk} {after after' : Store}
    (htwoRead : st.get { cfg with readShape := .twoRead } key =
      (.ok first, after))
    (hoverlap : st.get { cfg with readShape := .overlap } key =
      (.ok second, after')) : first = second ∧ after = after' :=
  Prod.mk.inj ((get_of_ok htwoRead).trans (get_of_ok hoverlap).symm)

def storedA : Store where
  index := { Index.empty with map := fun _ => some 0 }
  dir := writtenSlot (pageStore 1) (sizedTo (pageStore 1) noFiles) 0 "a"
    (single 1)

theorem read_shapes_agree_storedA : exists chunk after,
    storedA.get { pageStore 1 with readShape := .twoRead } "a" =
        (.ok (some chunk), after) ∧
      storedA.get { pageStore 1 with readShape := .overlap } "a" =
        (.ok (some chunk), after) := by
  have hslot : 0 < (pageStore 1).slotCount := by
    rw [slotCount_pageStore Nat.one_pos]
    exact Nat.one_pos
  have hheader : slotHeader (pageStore 1).chunkSize storedA.dir 0 =
      some (putHeader "a" (single 1)) := slotHeader_a _ 0 1 1
  have hget : forall shape, exists chunk after,
      storedA.get { pageStore 1 with readShape := shape } "a" =
        (.ok (some chunk), after) := by
    intro shape
    have hsized : Sized { pageStore 1 with readShape := shape } storedA.dir :=
      sized_writtenSlot (sized_sizedTo (pageStore 1) noFiles) hslot
        (length_single_le 1 1) (fits_a 1)
    have hfetch := fetch_of_shown hsized hslot rfl hheader
    exact ⟨_, _, Prod.ext ((Store.get_fst_of_map rfl).trans hfetch) rfl⟩
  rcases hget .twoRead with ⟨chunk, after, htwoRead⟩
  rcases hget .overlap with ⟨chunk', after', hoverlap⟩
  rcases read_shapes_agree _ _ _ htwoRead hoverlap with ⟨hchunk, hafter⟩
  rw [← hchunk, ← hafter] at hoverlap
  exact ⟨chunk, after, htwoRead, hoverlap⟩

end Cache
end Pacer
