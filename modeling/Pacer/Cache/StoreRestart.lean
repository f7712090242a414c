import Pacer.Cache.Provenance

/-!
# Restarts

A clean restart opens the same directory with the same configuration.  The scan
enters every readable header in slot order as if its key were new, while
removing a key leaves its header where it is.  So a key that was removed and
stored again can be in two headers.

The main result says exactly when a restart keeps the tier: when the slot
numbers fit 32 bits and no two headers name one key.
-/

namespace Pacer
namespace Cache

open Foundation

def DistinctKeys (cfg : StoreConfig) (dir : Directory) : Prop :=
  forall s t, s < cfg.slotCount -> t < cfg.slotCount ->
    forall header other, slotHeader cfg.chunkSize dir s = some header ->
      slotHeader cfg.chunkSize dir t = some other ->
      header.key = other.key -> s = t

/-!
## The scanned index

While slot numbers fit 32 bits, entering a slot takes it out of those set
aside.
-/

/-- The slots below `first` are entered as `header` says, and the others are
set aside. -/
structure EnteredTo (n first : Nat) (header : Nat -> Option SlotHeader)
    (idx : Index) : Prop where
  bookkept : idx.Bookkept n fun s => first ≤ s ∧ s < n
  keys : forall s, s < first -> idx.keyAt s = (header s).map SlotHeader.key
  mapped : forall s key, idx.keyAt s = some key -> idx.map key ≠ none

theorem enteredTo_zero (n : Nat) (header : Nat -> Option SlotHeader) :
    EnteredTo n 0 header Index.empty := by
  refine ⟨⟨⟨[], ?_, ?_⟩, ?_, ?_, ?_, ?_, ?_⟩, ?_, ?_⟩
  · exact Links.enumerates_nil rfl rfl
  · intro s
    constructor
    · intro hmem
      cases hmem
    · intro hkey
      exact absurd rfl hkey
  · intro s hkey
    exact absurd rfl hkey
  · exact List.nodup_nil
  · intro s
    constructor
    · intro hmem
      cases hmem
    · rintro ⟨hlt, _, haside⟩
      exact absurd ⟨Nat.zero_le s, hlt⟩ haside
  · intro s _
    rfl
  · intro key s hmap
    cases hmap
  · intro s hs
    cases hs
  · intro s key hkey
    cases hkey

theorem EnteredTo.enter {n first : Nat} {header : Nat -> Option SlotHeader}
    {idx : Index} (h : EnteredTo n first header idx) (hlt : first < n)
    (hn : n ≤ 2 ^ 32) :
    EnteredTo n (first + 1) header
      (idx.enter (asU32 first) (header first)) := by
  have hslot : asU32 first = first :=
    Nat.mod_eq_of_lt (Nat.lt_of_lt_of_le hlt hn)
  have haside : first ≤ first ∧ first < n := ⟨Nat.le_refl first, hlt⟩
  have hsame : forall s, (first + 1 ≤ s ∧ s < n) <->
      ((first ≤ s ∧ s < n) ∧ s ≠ first) := by
    intro s
    lia
  rw [hslot]
  cases hheader : header first with
  | none =>
    refine ⟨(h.bookkept.push haside hlt).congr hsame, ?_, h.mapped⟩
    intro s hs
    change idx.keyAt s = _
    by_cases heq : s = first
    · rw [heq, hheader, h.bookkept.aside_unkeyed first haside]
      rfl
    · exact h.keys s (by lia)
  | some found =>
    refine ⟨(h.bookkept.occupy haside hlt _ _ _).congr hsame, ?_, ?_⟩
    · intro s hs
      change (idx.occupy first found.key found.bodyLen found.bodyCrc).keyAt s =
        _
      rw [Index.keyAt_occupy]
      by_cases heq : s = first
      · rw [if_pos heq, heq, hheader]
        rfl
      · rw [if_neg heq]
        exact h.keys s (by lia)
    · intro s key hkey
      change (idx.occupy first found.key found.bodyLen found.bodyCrc).keyAt s =
        some key at hkey
      change (idx.occupy first found.key found.bodyLen found.bodyCrc).map key ≠
        none
      rw [Index.keyAt_occupy] at hkey
      rw [Index.map_occupy, Function.update_apply]
      split
      · intro hnone
        cases hnone
      rename_i hne
      by_cases heq : s = first
      · rw [if_pos heq] at hkey
        exact absurd (Option.some.inj hkey).symm hne
      · rw [if_neg heq] at hkey
        exact h.mapped s key hkey

theorem EnteredTo.enterFrom {n first count : Nat}
    {header : Nat -> Option SlotHeader} {idx : Index}
    (h : EnteredTo n first header idx) (hle : first + count ≤ n)
    (hn : n ≤ 2 ^ 32) :
    EnteredTo n (first + count) header
      (idx.enterFrom first ((List.range' first count).map header)) := by
  induction count generalizing first idx with
  | zero => exact h
  | succ count ih =>
    have hnext := ih (h.enter (by lia) hn) (by lia)
    have hsum : first + (count + 1) = first + 1 + count := by lia
    rw [List.range'_succ, List.map_cons, hsum]
    exact hnext

variable {cfg : StoreConfig} {st : Store}

theorem enteredTo_scanned (dir : Directory) (hn : cfg.slotCount ≤ 2 ^ 32) :
    EnteredTo cfg.slotCount cfg.slotCount (slotHeader cfg.chunkSize dir)
      (scanned cfg dir) := by
  have hentered := (enteredTo_zero cfg.slotCount
    (slotHeader cfg.chunkSize dir)).enterFrom
      (Nat.le_of_eq (Nat.zero_add cfg.slotCount)) hn
  rw [Nat.zero_add, ← List.range_eq_range'] at hentered
  exact hentered

theorem bookkept_scanned (dir : Directory) (hn : cfg.slotCount ≤ 2 ^ 32) :
    (scanned cfg dir).Bookkept cfg.slotCount Index.NoneAside := by
  refine (enteredTo_scanned dir hn).bookkept.congr ?_
  intro s
  constructor
  · intro hnone
    cases hnone
  · intro haside
    lia

theorem header_of_map_scanned {dir : Directory} (hn : cfg.slotCount ≤ 2 ^ 32)
    {key : String} {slot : Nat} (hmap : (scanned cfg dir).map key = some slot) :
    slot < cfg.slotCount ∧
      exists header, slotHeader cfg.chunkSize dir slot = some header ∧
        header.key = key := by
  have hentered := enteredTo_scanned dir hn
  have hkey := hentered.bookkept.map_keyed key slot hmap
  have hslot : slot < cfg.slotCount :=
    hentered.bookkept.keyed_lt slot (by simp [hkey])
  rw [hentered.keys slot hslot] at hkey
  rcases Option.map_eq_some_iff.mp hkey with ⟨header, hheader, heq⟩
  exact ⟨hslot, header, hheader, heq⟩

theorem map_scanned_ne_none {dir : Directory} (hn : cfg.slotCount ≤ 2 ^ 32)
    {slot : Nat} {header : SlotHeader} (hslot : slot < cfg.slotCount)
    (hheader : slotHeader cfg.chunkSize dir slot = some header) :
    (scanned cfg dir).map header.key ≠ none := by
  have hentered := enteredTo_scanned dir hn
  apply hentered.mapped slot
  rw [hentered.keys slot hslot, hheader]
  rfl

theorem enterFrom_high {s : Nat} (hs : 2 ^ 32 ≤ s) (first : Nat) (idx : Index)
    (headers : List (Option SlotHeader)) :
    (idx.enterFrom first headers).keyAt s = idx.keyAt s ∧
      (s ∈ (idx.enterFrom first headers).free <-> s ∈ idx.free) := by
  induction headers generalizing first idx with
  | nil => exact ⟨rfl, Iff.rfl⟩
  | cons header rest ih =>
    have hne : s ≠ asU32 first := by
      have hlt : asU32 first < 2 ^ 32 := Nat.mod_lt _ (by decide)
      lia
    rcases ih (first + 1) (idx.enter (asU32 first) header) with
      ⟨hkey, hfree⟩
    rw [Index.enterFrom, hkey, hfree]
    cases header with
    | none =>
      refine ⟨rfl, ?_⟩
      change s ∈ asU32 first :: idx.free <-> s ∈ idx.free
      simp [hne]
    | some found =>
      change (idx.occupy _ found.key found.bodyLen found.bodyCrc).keyAt s =
          idx.keyAt s ∧
        (s ∈ (idx.occupy _ found.key found.bodyLen found.bodyCrc).free <->
          s ∈ idx.free)
      rw [Index.keyAt_occupy, if_neg hne, Index.free_occupy]
      exact ⟨rfl, Iff.rfl⟩

theorem wellFormed_scanned_iff (cfg : StoreConfig) (dir : Directory) :
    (scanned cfg dir).WellFormed cfg.slotCount <->
      cfg.slotCount ≤ 2 ^ 32 ∧ DistinctKeys cfg dir := by
  constructor
  · intro hwell
    have hn : cfg.slotCount ≤ 2 ^ 32 := by
      rcases Nat.lt_or_ge (2 ^ 32) cfg.slotCount with hlt | hle
      · rcases enterFrom_high (Nat.le_refl (2 ^ 32)) 0 Index.empty
          ((List.range cfg.slotCount).map (slotHeader cfg.chunkSize dir)) with
          ⟨hkey, hfree⟩
        have hmem : 2 ^ 32 ∈ (scanned cfg dir).free :=
          (hwell.free_iff (2 ^ 32)).mpr ⟨hlt, hkey, not_false⟩
        cases hfree.mp hmem
      · exact hle
    refine ⟨hn, ?_⟩
    intro s t hs ht header other hheader hother hsame
    have hentered := enteredTo_scanned dir hn
    have hkeyS : (scanned cfg dir).keyAt s = some header.key := by
      rw [hentered.keys s hs, hheader]
      rfl
    have hkeyT : (scanned cfg dir).keyAt t = some header.key := by
      rw [hentered.keys t ht, hother, hsame]
      rfl
    have hmapS := hwell.keyed_map s header.key hkeyS
    have hmapT := hwell.keyed_map t header.key hkeyT
    rw [hmapS] at hmapT
    exact Option.some.inj hmapT
  · rintro ⟨hn, hdistinct⟩
    refine ⟨bookkept_scanned dir hn, ?_⟩
    intro s key hkey
    have hentered := enteredTo_scanned dir hn
    have hs : s < cfg.slotCount :=
      hentered.bookkept.keyed_lt s (by simp [hkey])
    rcases Option.ne_none_iff_exists'.mp (hentered.mapped s key hkey) with
      ⟨t, hmap⟩
    rcases header_of_map_scanned hn hmap with ⟨ht, other, hother, hsame⟩
    rw [hentered.keys s hs] at hkey
    rcases Option.map_eq_some_iff.mp hkey with ⟨header, hheader, hname⟩
    rw [hmap, hdistinct s t hs ht header other hheader hother
      (hname.trans hsame.symm)]

/-!
## What a run keeps up

Between calls, the slot a key maps to carries a header that names the key.  The
empty key is the exception: its header never parses.
-/

structure Kept (cfg : StoreConfig) (st : Store) : Prop where
  bookkept : st.index.Bookkept cfg.slotCount Index.NoneAside
  sized : Sized cfg st.dir
  named : forall key slot, st.index.map key = some slot -> key ≠ "" ->
    exists header, slotHeader cfg.chunkSize st.dir slot = some header ∧
      header.key = key

theorem kept_openStore {dir : Directory} (hn : cfg.slotCount ≤ 2 ^ 32)
    (hopen : openStore cfg dir = .ok st) :
    Kept cfg st := by
  rcases openStore_ok hopen with ⟨_, rfl⟩
  refine ⟨bookkept_scanned _ hn, sized_sizedTo cfg dir, ?_⟩
  intro key slot hmap _
  exact (header_of_map_scanned hn hmap).right

theorem kept_get (h : Kept cfg st) (key : String)
    : Kept cfg (st.get cfg key).2 := by
  rcases Store.get_spec cfg st key with
    ⟨_, hst⟩ | ⟨slot, index, htouch, _, hst | hst⟩
  · rw [hst]
    exact h
  · rw [hst]
    refine ⟨h.bookkept.touch htouch, h.sized, ?_⟩
    intro k s hmap
    rcases Index.touch_some htouch with ⟨_, rfl⟩
    change ((st.index.unlinkLinked slot).pushBack slot).map k = some s at hmap
    rw [Index.map_pushBack, Index.map_unlinkLinked] at hmap
    exact h.named k s hmap
  · rw [hst]
    refine ⟨(h.bookkept.touch htouch).forget slot, h.sized, ?_⟩
    intro k s hmap
    have hbefore := (Index.map_forget hmap).left
    rcases Index.touch_some htouch with ⟨_, rfl⟩
    rw [Index.map_pushBack, Index.map_unlinkLinked] at hbefore
    exact h.named k s hbefore

theorem kept_remove (h : Kept cfg st) (key : String)
    : Kept cfg (st.remove key).2 := by
  refine ⟨h.bookkept.remove key, h.sized, ?_⟩
  intro k s hmap
  change (st.index.remove key).2.map k = some s at hmap
  rw [Index.remove_eq] at hmap
  cases hheld : st.index.map key with
  | none =>
    rw [hheld] at hmap
    exact h.named k s hmap
  | some slot =>
    rw [hheld] at hmap
    exact h.named k s (Index.map_forget hmap).left

theorem kept_put (h : Kept cfg st) (key : String) (chunk : CachedChunk) :
    Kept cfg (st.put cfg key chunk).2 := by
  rcases Store.put_spec cfg st key chunk with
    hst | ⟨slot, index, hlen, hclaim, ⟨_, hst⟩ | ⟨hfits, hst⟩⟩
  · rw [hst]
    exact h
  · rw [hst]
    have hindex := (h.bookkept.claim hclaim).left
    refine ⟨hindex.forget slot, h.sized, ?_⟩
    intro k s hmap
    rcases Index.map_forget hmap with ⟨hbefore, hunmapped⟩
    rcases h.bookkept.map_claim hclaim hbefore with ⟨hk, hs⟩ | ⟨hold, _⟩
    · subst hk hs
      exact absurd (hindex.map_keyed k s hbefore) hunmapped
    · exact h.named k s hold
  · rw [hst]
    rcases h.bookkept.claim hclaim with ⟨hindex, hslot⟩
    refine ⟨hindex, sized_writtenSlot h.sized hslot hlen hfits, ?_⟩
    intro k s hmap hk
    rcases h.bookkept.map_claim hclaim hmap with ⟨heq, hs⟩ | ⟨hold, hne⟩
    · subst heq hs
      exact ⟨_, slotHeader_written _ s hk hlen hfits, rfl⟩
    · rw [slotHeader_writtenSlot_of_ne st.dir hfits hne]
      exact h.named k s hold hk

theorem kept_after (h : Kept cfg st) (ops : List Op)
    : Kept cfg (st.after cfg ops) := by
  induction ops generalizing st with
  | nil => exact h
  | cons op rest ih =>
    apply ih
    cases op with
    | get key => exact kept_get h key
    | put key chunk => exact kept_put h key chunk
    | remove key => exact kept_remove h key

/-!
## The restart
-/

/-- The store opened over the directory of `st` has a well-formed index, and
its gets of the keys `st` holds return what they returned. -/
def KeepsTier (cfg : StoreConfig) (st : Store) : Prop :=
  exists reopened, openStore cfg st.dir = .ok reopened ∧
    reopened.index.WellFormed cfg.slotCount ∧
    forall key slot, st.index.map key = some slot ->
      (reopened.get cfg key).1 = (st.get cfg key).1

theorem get_empty_key (hsized : Sized cfg st.dir)
    (hbounded : forall slot, st.index.map "" = some slot ->
      slot < cfg.slotCount) : (st.get cfg "").1 = .ok none := by
  cases hmap : st.index.map "" with
  | none => exact Store.get_fst_of_not_map hmap
  | some slot =>
    rw [Store.get_fst_of_map hmap]
    apply fetch_of_mismatch hsized (hbounded slot hmap)
    intro header hheader
    exact slotHeader_key_ne_empty hheader

theorem keepsTier_of_distinctKeys (haligned : cfg.chunkSize % directIoAlign = 0)
    (hn : cfg.slotCount ≤ 2 ^ 32) (h : Kept cfg st)
    (hdistinct : DistinctKeys cfg st.dir) : KeepsTier cfg st := by
  have hopen := openStore_of_aligned st.dir haligned
  rw [sizedTo_of_sized h.sized] at hopen
  refine ⟨_, hopen, (wellFormed_scanned_iff cfg st.dir).mpr ⟨hn, hdistinct⟩,
    ?_⟩
  intro key slot hmap
  have hslot : slot < cfg.slotCount := by
    apply h.bookkept.keyed_lt slot
    rw [h.bookkept.map_keyed key slot hmap]
    intro hnone
    cases hnone
  by_cases hkey : key = ""
  · subst hkey
    have hbefore : (st.get cfg "").1 = .ok none := by
      apply get_empty_key h.sized
      intro s hs
      rw [hmap] at hs
      cases hs
      exact hslot
    rw [hbefore]
    refine get_empty_key ?_ ?_
    · exact h.sized
    · intro s hs
      exact (header_of_map_scanned hn hs).left
  · rcases h.named key slot hmap hkey with ⟨header, hheader, hname⟩
    have hfound := map_scanned_ne_none hn hslot hheader
    rcases Option.ne_none_iff_exists'.mp hfound with ⟨t, ht⟩
    rcases header_of_map_scanned hn ht with ⟨htlt, other, hother, hsame⟩
    have heq : slot = t :=
      hdistinct slot t hslot htlt header other hheader hother hsame.symm
    rw [hname, ← heq] at ht
    rw [Store.get_fst_of_map ht, Store.get_fst_of_map hmap]

/-- After any run of calls, a restart keeps the tier exactly when the slot
numbers fit 32 bits and no two headers on disk name one key. -/
theorem restart_keeps_tier_iff {cfg : StoreConfig} {dir : Directory}
    {opened : Store} (hopen : openStore cfg dir = .ok opened)
    (ops : List Op) :
    KeepsTier cfg (opened.after cfg ops) <->
      cfg.slotCount ≤ 2 ^ 32 ∧
        DistinctKeys cfg (opened.after cfg ops).dir := by
  constructor
  · rintro ⟨reopened, hreopen, hwell, _⟩
    rcases openStore_ok hreopen with ⟨_, rfl⟩
    rcases (wellFormed_scanned_iff cfg _).mp hwell with ⟨hn, hdistinct⟩
    refine ⟨hn, ?_⟩
    intro s t hs ht header other hheader hother
    apply hdistinct s t hs ht header other
    · rw [slotHeader_sizedTo]
      exact hheader
    · rw [slotHeader_sizedTo]
      exact hother
  · rintro ⟨hn, hdistinct⟩
    exact keepsTier_of_distinctKeys (openStore_ok hopen).left hn
      (kept_after (kept_openStore hn hopen) ops) hdistinct

/-!
## A key in two headers

On a tier of two slots, `a` is stored in one slot, removed, and stored again in
the other.  Both headers name it, and the scan lets the stale one win.
-/

def storedTwice : List Op :=
  [.put "a" (single 1), .put "b" (single 2), .remove "a", .remove "b",
    .put "a" (single 3)]

def twiceDir (dir : Directory) : Directory :=
  writtenSlot (pageStore 2)
    (writtenSlot (pageStore 2)
      (writtenSlot (pageStore 2) dir 1 "a" (single 1)) 0 "b" (single 2))
    0 "a" (single 3)

def twiceIndex : Index :=
  let stored := ({ Index.empty with free := [0] } : Index).occupy 1 "a" 1
    (bodyCrc [1])
  let both := ({ stored with free := [] } : Index).occupy 0 "b" 1 (bodyCrc [2])
  ((both.remove "a").2.remove "b").2

theorem after_storedTwice (dir : Directory) :
    Store.after (pageStore 2)
        { index := { Index.empty with free := [1, 0] }, dir := dir }
        storedTwice =
      { index := ({ twiceIndex with free := [1] } : Index).occupy 0 "a" 1
          (bodyCrc [3]),
        dir := twiceDir dir } := by
  refine (Store.after_put _ (length_single_le 1 2) rfl (fits_a 1)).trans ?_
  refine (Store.after_put _ (length_single_le 2 2) rfl (fits_b 2)).trans ?_
  change Store.after (pageStore 2) { index := twiceIndex, dir := _ } _ = _
  refine (Store.after_put _ (length_single_le 3 2) rfl (fits_a 3)).trans ?_
  rfl

section TwiceDir

variable (dir : Directory)

theorem slotHeader_twiceDir_zero :
    slotHeader (pageStore 2).chunkSize (twiceDir dir) 0 =
      some (putHeader "a" (single 3)) :=
  slotHeader_a _ 0 3 2

theorem slotHeader_twiceDir_one :
    slotHeader (pageStore 2).chunkSize (twiceDir dir) 1 =
      some (putHeader "a" (single 1)) := by
  rw [twiceDir, slotHeader_writtenSlot_of_ne _ (fits_a 3) Nat.one_ne_zero,
    slotHeader_writtenSlot_of_ne _ (fits_b 2) Nat.one_ne_zero]
  exact slotHeader_a _ 1 1 2

theorem shown_twiceDir_zero :
    shown (pageStore 2).chunkSize (twiceDir dir) 0
      (putHeader "a" (single 3)) = single 3 := by
  have hbody : bodyBytes (pageStore 2).chunkSize (twiceDir dir) 0 1 = [3] :=
    bodyBytes_writtenSlot_same _ 0 (fits_a 3)
  change CachedChunk.mk (bodyBytes _ (twiceDir dir) 0 1) none = single 3
  rw [hbody]
  rfl

theorem shown_twiceDir_one :
    shown (pageStore 2).chunkSize (twiceDir dir) 1
      (putHeader "a" (single 1)) = single 1 := by
  have hbody : bodyBytes (pageStore 2).chunkSize (twiceDir dir) 1 1 = [1] := by
    refine (bodyBytes_writtenSlot_of_ne _ (fits_a 3) (length_single_le 3 2)
      (length_single_le 1 2) Nat.one_ne_zero).trans ?_
    refine (bodyBytes_writtenSlot_of_ne _ (fits_b 2) (length_single_le 2 2)
      (length_single_le 1 2) Nat.one_ne_zero).trans ?_
    exact bodyBytes_writtenSlot_same _ 1 (fits_a 1)
  change CachedChunk.mk (bodyBytes _ (twiceDir dir) 1 1) none = single 1
  rw [hbody]
  rfl

theorem sized_twiceDir (h : Sized (pageStore 2) dir) :
    Sized (pageStore 2) (twiceDir dir) := by
  have hcount : (pageStore 2).slotCount = 2 := slotCount_pageStore Nat.two_pos
  have hzero : 0 < (pageStore 2).slotCount := by lia
  have hone : 1 < (pageStore 2).slotCount := by lia
  have hfirst := sized_writtenSlot h hone (length_single_le 1 2) (fits_a 1)
  have hsecond :=
    sized_writtenSlot hfirst hzero (length_single_le 2 2) (fits_b 2)
  exact sized_writtenSlot hsecond hzero (length_single_le 3 2) (fits_a 3)

end TwiceDir

/-- After the restart the get of `a` returns the chunk it was removed with, and
the rebuilt index is not well formed. -/
theorem storedTwice_restarts_stale :
    exists opened reopened,
      openStore (pageStore 2) noFiles = .ok opened ∧
        ((opened.after (pageStore 2) storedTwice).index.map "a").isSome ∧
        ((opened.after (pageStore 2) storedTwice).get (pageStore 2) "a").1 =
          .ok (some (single 3)) ∧
        openStore (pageStore 2) (opened.after (pageStore 2) storedTwice).dir =
          .ok reopened ∧
        (reopened.get (pageStore 2) "a").1 = .ok (some (single 1)) ∧
        ¬ reopened.index.WellFormed (pageStore 2).slotCount := by
  have hcount : (pageStore 2).slotCount = 2 := slotCount_pageStore Nat.two_pos
  have hzero : 0 < (pageStore 2).slotCount := by lia
  have hone : 1 < (pageStore 2).slotCount := by lia
  have hsized := sized_twiceDir _ (sized_sizedTo (pageStore 2) noFiles)
  have hreopen := openStore_of_aligned
    (twiceDir (sizedTo (pageStore 2) noFiles)) (aligned_pageStore 2)
  rw [sizedTo_of_sized hsized] at hreopen
  have hscanned : (scanned (pageStore 2)
      (twiceDir (sizedTo (pageStore 2) noFiles))).map "a" = some 1 := by
    have hrange : List.range 2 = [0, 1] := rfl
    rw [scanned, hcount, hrange, List.map_cons, List.map_singleton,
      slotHeader_twiceDir_zero, slotHeader_twiceDir_one]
    rfl
  refine ⟨_, ⟨scanned (pageStore 2) (twiceDir (sizedTo (pageStore 2) noFiles)),
    twiceDir (sizedTo (pageStore 2) noFiles)⟩,
    openStore_twoSlots, ?_, ?_, ?_, ?_, ?_⟩
  · rw [after_storedTwice]
    rfl
  · rw [after_storedTwice]
    have hmap : (({ twiceIndex with free := [1] } : Index).occupy 0 "a" 1
        (bodyCrc [3])).map "a" = some 0 := rfl
    rw [Store.get_fst_of_map hmap]
    refine (fetch_of_shown hsized hzero rfl
      (slotHeader_twiceDir_zero _)).trans ?_
    rw [shown_twiceDir_zero]
  · rw [after_storedTwice]
    exact hreopen
  · refine (Store.get_fst_of_map ?_).trans
      ((fetch_of_shown hsized hone rfl (slotHeader_twiceDir_one _)).trans ?_)
    · dsimp only
      exact hscanned
    · rw [shown_twiceDir_one]
  · intro hwell
    dsimp only at hwell
    have hdistinct := ((wellFormed_scanned_iff (pageStore 2)
      (twiceDir (sizedTo (pageStore 2) noFiles))).mp hwell).right
    have heq := hdistinct 0 1 hzero hone _ _ (slotHeader_twiceDir_zero _)
      (slotHeader_twiceDir_one _) rfl
    cases heq

theorem restart_keeps_tier_single :
    KeepsTier (pageStore 1)
      (Store.after (pageStore 1)
        { index := { Index.empty with free := [0] },
          dir := sizedTo (pageStore 1) noFiles }
        [.put "a" (single 1)]) := by
  have hcount : (pageStore 1).slotCount = 1 := slotCount_pageStore Nat.one_pos
  apply (restart_keeps_tier_iff openStore_oneSlot [.put "a" (single 1)]).mpr
  constructor
  · lia
  · intro s t hs ht _ _ _ _ _
    lia

end Cache
end Pacer
