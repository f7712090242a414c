import Mathlib.Data.List.Perm.Subperm
import Pacer.Cache.StoreRestart
import Pacer.Foundation.Recency

/-!
# The store as a recency list

The recency order of an index is read off its links, and each critical section
of the store changes it in one place.  A store that was opened over a directory
without headers answers every run of calls as the ideal recency list of its
slot count does: the keyed slots in recency order show the list's entries.
-/

namespace Pacer
namespace Cache

open Foundation

namespace Index

/-- The keyed slots of an index of `n` slots, least recently used first. -/
def recency (n : Nat) (idx : Index) : List Nat :=
  idx.links.walk n idx.lruHead

section Recency

variable {n : Nat} {aside : Nat -> Prop} {idx idx' : Index}
  {front back order : List Nat} {slot : Nat} {key : String}

theorem length_le_of_lt (hnodup : order.Nodup)
    (hlt : forall s, s ∈ order -> s < n) : order.length ≤ n := by
  have hsub : order ⊆ List.range n :=
    fun s hs => List.mem_range.mpr (hlt s hs)
  have hle := (List.subperm_of_subset hnodup hsub).length_le
  rw [List.length_range] at hle
  exact hle

section

variable (h : Bookkept n aside idx)

include h

theorem Bookkept.recency_eq (henum : idx.links.Enumerates order) :
    idx.recency n = order := by
  rcases h.linked with ⟨other, hother, hmem⟩
  have hsame := henum.unique hother
  subst hsame
  apply henum.walk_eq
  apply length_le_of_lt henum.nodup
  intro s hs
  exact h.keyed_lt s ((hmem s).mp hs)

theorem Bookkept.enumerates :
    idx.links.Enumerates (idx.recency n) := by
  rcases h.linked with ⟨order, henum, _⟩
  rw [h.recency_eq henum]
  exact henum

theorem Bookkept.mem_recency (s : Nat) :
    s ∈ idx.recency n <-> idx.keyAt s ≠ none := by
  rcases h.linked with ⟨order, henum, hmem⟩
  rw [h.recency_eq henum]
  exact hmem s

theorem Bookkept.mem_recency_of_key (hkey : idx.keyAt slot = some key) :
    slot ∈ idx.recency n := by
  rw [h.mem_recency, hkey]
  intro hnone
  cases hnone

end

theorem Bookkept.free_ne_nil_iff (h : Bookkept n NoneAside idx) :
    idx.free ≠ [] <-> (idx.recency n).length < n := by
  have hnodup := h.enumerates.nodup
  constructor
  · intro hfree
    rcases List.exists_mem_of_ne_nil _ hfree with ⟨slot, hslot⟩
    rcases (h.free_iff slot).mp hslot with ⟨hlt, hunkeyed, _⟩
    have hnot : slot ∉ idx.recency n :=
      fun hmem => (h.mem_recency slot).mp hmem hunkeyed
    have hle : (slot :: idx.recency n).length ≤ n := by
      apply length_le_of_lt (List.nodup_cons.mpr ⟨hnot, hnodup⟩)
      intro s hs
      rcases List.mem_cons.mp hs with rfl | hmem
      · exact hlt
      · exact h.keyed_lt s ((h.mem_recency s).mp hmem)
    exact hle
  · intro hlt hfree
    have hsub : List.range n ⊆ idx.recency n := by
      intro s hs
      rw [h.mem_recency]
      intro hunkeyed
      have hmem := (h.free_iff s).mpr
        ⟨List.mem_range.mp hs, hunkeyed, not_false⟩
      rw [hfree] at hmem
      cases hmem
    have hle := (List.subperm_of_subset List.nodup_range hsub).length_le
    rw [List.length_range] at hle
    lia

/-!
## What a critical section does to the order
-/

theorem keyAt_touch (htouch : idx.touch key = some (slot, idx')) (s : Nat) :
    idx'.keyAt s = idx.keyAt s := by
  rcases touch_some htouch with ⟨_, rfl⟩
  rw [keyAt_pushBack, keyAt_unlinkLinked]

theorem map_touch (htouch : idx.touch key = some (slot, idx')) :
    idx'.map = idx.map := by
  rcases touch_some htouch with ⟨_, rfl⟩
  rw [map_pushBack, map_unlinkLinked]

theorem Bookkept.not_mem_of_split (h : Bookkept n aside idx)
    (hsplit : idx.recency n = front ++ slot :: back) :
    slot ∉ front ++ back := by
  have hnodup := h.enumerates.nodup
  rw [hsplit, List.nodup_middle] at hnodup
  exact (List.nodup_cons.mp hnodup).1

theorem Bookkept.recency_touch (h : Bookkept n NoneAside idx)
    (htouch : idx.touch key = some (slot, idx'))
    (hsplit : idx.recency n = front ++ slot :: back) :
    idx'.recency n = front ++ back ++ [slot] := by
  apply (h.touch htouch).recency_eq
  have henum := h.enumerates
  rw [hsplit] at henum
  rcases touch_some htouch with ⟨_, rfl⟩
  rw [links_pushBack, links_unlinkLinked]
  exact Links.pushBack_enumerates (Links.unlink_enumerates henum)
    (h.not_mem_of_split hsplit)

theorem keyAt_forget (idx : Index) (slot s : Nat) :
    (idx.forget slot).keyAt s = if s = slot then none else idx.keyAt s := by
  cases hkey : idx.keyAt slot with
  | none =>
    rw [forget_of_free hkey]
    split
    · rename_i heq
      rw [heq, hkey]
    · rfl
  | some key =>
    rw [forget_of_keyed hkey]
    exact keyAt_evict hkey s

theorem map_forget_of_keyed (h : idx.keyAt slot = some key) :
    (idx.forget slot).map = Function.update idx.map key none := by
  rw [forget_of_keyed h]
  exact map_evict h

theorem Bookkept.recency_forget (h : Bookkept n NoneAside idx)
    (hsplit : idx.recency n = front ++ slot :: back) :
    (idx.forget slot).recency n = front ++ back := by
  apply (h.forget slot).recency_eq
  have hmem : slot ∈ idx.recency n := by simp [hsplit]
  rcases Option.ne_none_iff_exists'.mp ((h.mem_recency slot).mp hmem) with
    ⟨key, hkey⟩
  have henum := h.enumerates
  rw [hsplit] at henum
  rw [forget_of_keyed hkey]
  change (idx.evict slot).2.links.Enumerates _
  rw [links_evict hkey]
  exact Links.unlink_enumerates henum

section Claim

variable {header : SlotHeader}

theorem Bookkept.keyAt_claim (h : Bookkept n NoneAside idx)
    (hclaim : idx.claim key header = some (slot, idx')) (s : Nat) :
    idx'.keyAt s = if s = slot then some key else idx.keyAt s := by
  rcases claim_some hclaim with ⟨_, ⟨rest, _, rfl⟩ | ⟨_, hhead, rfl⟩⟩
  · rw [keyAt_occupy]
    rfl
  · rcases h.keyAt_lruHead hhead with ⟨victim, hvictim⟩
    rw [keyAt_occupy, keyAt_evict hvictim]
    split
    · rfl
    · rfl

theorem Bookkept.recency_claim (h : Bookkept n NoneAside idx)
    (hclaim : idx.claim key header = some (slot, idx')) :
    (idx.free ≠ [] ∧ slot ∉ idx.recency n ∧
        idx'.recency n = idx.recency n ++ [slot]) ∨
      (idx.free = [] ∧ exists rest, idx.recency n = slot :: rest ∧
        idx'.recency n = rest ++ [slot]) := by
  have hkept := (h.claim hclaim).left
  have henum := h.enumerates
  rcases claim_some hclaim with ⟨_, ⟨rest, hfree, rfl⟩ | ⟨hfree, hhead, rfl⟩⟩
  · have hunkeyed := ((h.free_iff slot).mp (by simp [hfree])).2.1
    have hnot : slot ∉ idx.recency n :=
      fun hmem => (h.mem_recency slot).mp hmem hunkeyed
    refine Or.inl ⟨by simp [hfree], hnot, hkept.recency_eq ?_⟩
    rw [links_occupy]
    exact Links.pushBack_enumerates henum hnot
  · rcases h.keyAt_lruHead hhead with ⟨victim, hvictim⟩
    have hfirst : (idx.recency n).head? = some slot := by
      rw [← henum.head]
      exact hhead
    rcases List.head?_eq_some_iff.mp hfirst with ⟨rest, hsplit⟩
    refine Or.inr ⟨hfree, rest, hsplit, hkept.recency_eq ?_⟩
    have hfront : idx.recency n = [] ++ slot :: rest := hsplit
    rw [hfront] at henum
    rw [links_occupy, links_evict hvictim]
    exact Links.pushBack_enumerates (Links.unlink_enumerates henum)
      (h.not_mem_of_split hfront)

end Claim

end Recency

/-!
## Well-formed indexes stay so
-/

section WellFormed

variable {n : Nat} {idx idx' : Index} {slot : Nat} {key : String}

theorem WellFormed.touch (h : WellFormed n idx)
    (htouch : idx.touch key = some (slot, idx')) : WellFormed n idx' := by
  refine ⟨h.toBookkept.touch htouch, ?_⟩
  intro s k hkey
  rw [keyAt_touch htouch] at hkey
  rw [map_touch htouch]
  exact h.keyed_map s k hkey

theorem WellFormed.forget (h : WellFormed n idx) (slot : Nat) :
    WellFormed n (idx.forget slot) := by
  refine ⟨h.toBookkept.forget slot, ?_⟩
  intro s k hkey
  rw [keyAt_forget] at hkey
  split at hkey
  · cases hkey
  rename_i hne
  have hmap := h.keyed_map s k hkey
  cases hheld : idx.keyAt slot with
  | none =>
    rw [forget_of_free hheld]
    exact hmap
  | some held =>
    -- A slot other than the forgotten one holds another key.
    have hother : k ≠ held := by
      rintro rfl
      rw [h.keyed_map slot k hheld] at hmap
      exact hne (Option.some.inj hmap).symm
    rw [map_forget_of_keyed hheld, Function.update_of_ne hother]
    exact hmap

theorem WellFormed.remove (h : WellFormed n idx) (key : String) :
    WellFormed n (idx.remove key).2 := by
  rw [remove_eq]
  cases idx.map key with
  | none => exact h
  | some slot => exact h.forget slot

theorem WellFormed.claim {header : SlotHeader} (h : WellFormed n idx)
    (hclaim : idx.claim key header = some (slot, idx')) :
    WellFormed n idx' := by
  refine ⟨(h.toBookkept.claim hclaim).left, ?_⟩
  intro s k hkey
  rw [h.toBookkept.keyAt_claim hclaim] at hkey
  rcases claim_some hclaim with ⟨hnew, ⟨rest, hfree, rfl⟩ | ⟨_, hhead, rfl⟩⟩
  · rw [map_occupy]
    split at hkey
    · rename_i heq
      cases hkey
      rw [heq, Function.update_self]
    · have hmap := h.keyed_map s k hkey
      have hother : k ≠ key := by
        rintro rfl
        rw [hnew] at hmap
        cases hmap
      rw [Function.update_of_ne hother]
      exact hmap
  · rcases h.toBookkept.keyAt_lruHead hhead with ⟨victim, hvictim⟩
    rw [map_occupy, map_evict hvictim]
    split at hkey
    · rename_i heq
      cases hkey
      rw [heq, Function.update_self]
    · rename_i hne
      have hmap := h.keyed_map s k hkey
      have hother : k ≠ key := by
        rintro rfl
        rw [hnew] at hmap
        cases hmap
      have hvictims : k ≠ victim := by
        rintro rfl
        rw [h.keyed_map slot k hvictim] at hmap
        exact hne (Option.some.inj hmap).symm
      rw [Function.update_of_ne hother, Function.update_of_ne hvictims]
      exact hmap

end WellFormed

inductive Section where
  | touch (key : String)
  | claim (key : String) (header : SlotHeader)
  | forget (slot : Nat)
  | remove (key : String)
deriving DecidableEq, Repr

/-- The index after a critical section; a lookup or a claim that finds nothing
to do leaves it. -/
def enterSection (idx : Index) : Section -> Index
  | .touch key =>
    match idx.touch key with
    | none => idx
    | some (_, idx') => idx'
  | .claim key header =>
    match idx.claim key header with
    | none => idx
    | some (_, idx') => idx'
  | .forget slot => idx.forget slot
  | .remove key => (idx.remove key).2

def afterSections (idx : Index) (sections : List Section) : Index :=
  sections.foldl enterSection idx

theorem WellFormed.enterSection {n : Nat} {idx : Index} (h : WellFormed n idx)
    (sec : Section) : WellFormed n (idx.enterSection sec) := by
  cases sec with
  | touch key =>
    unfold Index.enterSection
    dsimp only
    split
    · exact h
    · rename_i htouch
      exact h.touch htouch
  | claim key header =>
    unfold Index.enterSection
    dsimp only
    split
    · exact h
    · rename_i hclaim
      exact h.claim hclaim
  | forget slot => exact h.forget slot
  | remove key => exact h.remove key

theorem WellFormed.afterSections {n : Nat} {idx : Index}
    (h : WellFormed n idx) (sections : List Section) :
    WellFormed n (idx.afterSections sections) := by
  induction sections generalizing idx with
  | nil => exact h
  | cons sec rest ih => exact ih (h.enterSection sec)

end Index

variable {cfg : StoreConfig} {dir : Directory}

theorem Store.put_of_tooLong {chunk : CachedChunk} (st : Store) (key : String)
    (h : chunk.body.length > cfg.chunkSize) :
    st.put cfg key chunk = (.error (tooLong cfg chunk), st) :=
  if_pos h

/-!
## The ideal answers
-/

abbrev Ideal (cfg : StoreConfig) :=
  Recency String CachedChunk cfg.slotCount

namespace Ideal

variable {cfg : StoreConfig}

def apply (r : Ideal cfg) : Op -> Answer × Ideal cfg
  | .get key => (.got (.ok (r.lookup key)), r.touch key)
  | .put key chunk =>
    if chunk.body.length > cfg.chunkSize then
      (.stored (.error (tooLong cfg chunk)), r)
    else
      (.stored (.ok ()), r.insert key chunk)
  | .remove key => (.removed (r.lookup key).isSome, r.erase key)

def transcript : Ideal cfg -> List Op -> List (Op × Answer)
  | _, [] => []
  | r, op :: rest => (op, (r.apply op).1) :: transcript (r.apply op).2 rest

end Ideal

/-- A slot header can say what the call puts: its key and its ETag are not
empty and within the limits. -/
def Op.Storable : Op -> Prop
  | .get _ => True
  | .put key chunk =>
    key ≠ "" ∧ chunk.eTag ≠ some "" ∧ (putHeader key chunk).Fits
  | .remove _ => True

/-!
## What the slots show
-/

def entryAt (chunkSize : Nat) (dir : Directory) (slot : Nat) :
    Option (String × CachedChunk) :=
  (slotHeader chunkSize dir slot).map fun header =>
    (header.key, shown chunkSize dir slot header)

def Intact (chunkSize : Nat) (dir : Directory) (slot : Nat) (key : String) :
    Prop :=
  exists header, slotHeader chunkSize dir slot = some header ∧
    header.key = key ∧
    bodyCrc (shown chunkSize dir slot header).body = header.bodyCrc

section WrittenSlot

variable {cfg : StoreConfig} {dir : Directory} {slot s : Nat} {key : String}
  {chunk : CachedChunk}

variable (hfits : (putHeader key chunk).Fits)

include hfits

theorem entryAt_writtenSlot_of_ne
    (hlen : chunk.body.length ≤ cfg.chunkSize) (hne : s ≠ slot) :
    entryAt cfg.chunkSize (writtenSlot cfg dir slot key chunk) s =
      entryAt cfg.chunkSize dir s := by
  unfold entryAt
  rw [slotHeader_writtenSlot_of_ne dir hfits hne]
  cases hheader : slotHeader cfg.chunkSize dir s with
  | none => rfl
  | some header =>
    have hle := slotHeader_bodyLen_le hheader
    have hbody := bodyBytes_writtenSlot_of_ne dir hfits hlen hle hne
    simp only [Option.map_some, shown, hbody]

theorem Intact.writtenSlot_of_ne {k : String}
    (h : Intact cfg.chunkSize dir s k)
    (hlen : chunk.body.length ≤ cfg.chunkSize) (hne : s ≠ slot) :
    Intact cfg.chunkSize (writtenSlot cfg dir slot key chunk) s k := by
  rcases h with ⟨header, hheader, hkey, hcrc⟩
  have hle := slotHeader_bodyLen_le hheader
  have hbody := bodyBytes_writtenSlot_of_ne dir hfits hlen hle hne
  rw [← slotHeader_writtenSlot_of_ne dir hfits hne] at hheader
  refine ⟨header, hheader, hkey, ?_⟩
  rw [shown, hbody]
  exact hcrc

theorem shown_writtenSlot_same (hlen : chunk.body.length < 2 ^ 32)
    (htag : chunk.eTag ≠ some "") :
    shown cfg.chunkSize (writtenSlot cfg dir slot key chunk) slot
      (putHeader key chunk).normal = chunk := by
  have hbody : bodyBytes cfg.chunkSize (writtenSlot cfg dir slot key chunk)
      slot chunk.body.length = chunk.body :=
    bodyBytes_writtenSlot_same dir slot hfits
  have hlength : (putHeader key chunk).bodyLen.toNat = chunk.body.length :=
    putHeader_bodyLen hlen
  have hwitness : SlotHeader.witness chunk.eTag = chunk.eTag := by
    cases htagged : chunk.eTag with
    | none => rfl
    | some tag =>
      have hne : tag ≠ "" := by
        rintro rfl
        exact htag htagged
      simp [SlotHeader.witness, hne]
  show CachedChunk.mk (bodyBytes cfg.chunkSize _ slot
    (putHeader key chunk).bodyLen.toNat) (SlotHeader.witness chunk.eTag) = chunk
  rw [hlength, hbody, hwitness]

theorem slotHeader_writtenSlot_same (hkey : key ≠ "")
    (hlen : chunk.body.length ≤ cfg.chunkSize) :
    slotHeader cfg.chunkSize (writtenSlot cfg dir slot key chunk) slot =
      some (putHeader key chunk).normal :=
  slotHeader_written _ slot hkey hlen hfits

theorem entryAt_writtenSlot_same (hkey : key ≠ "")
    (htag : chunk.eTag ≠ some "")
    (hlen : chunk.body.length ≤ cfg.chunkSize)
    (hsize : chunk.body.length < 2 ^ 32) :
    entryAt cfg.chunkSize (writtenSlot cfg dir slot key chunk) slot =
      some (key, chunk) := by
  unfold entryAt
  rw [slotHeader_writtenSlot_same hfits hkey hlen, Option.map_some,
    shown_writtenSlot_same hfits hsize htag]
  rfl

theorem intact_writtenSlot_same (hkey : key ≠ "")
    (htag : chunk.eTag ≠ some "")
    (hlen : chunk.body.length ≤ cfg.chunkSize)
    (hsize : chunk.body.length < 2 ^ 32) :
    Intact cfg.chunkSize (writtenSlot cfg dir slot key chunk) slot key := by
  refine ⟨_, slotHeader_writtenSlot_same hfits hkey hlen, rfl, ?_⟩
  rw [shown_writtenSlot_same hfits hsize htag]
  rfl

end WrittenSlot

/-!
## The refinement
-/

structure Refines (cfg : StoreConfig) (st : Store) (r : Ideal cfg) :
    Prop where
  wellFormed : st.index.WellFormed cfg.slotCount
  sized : Sized cfg st.dir
  intact : forall slot key, st.index.keyAt slot = some key ->
    Intact cfg.chunkSize st.dir slot key
  entries : (st.index.recency cfg.slotCount).map
    (entryAt cfg.chunkSize st.dir) = r.entries.map some

namespace Refines

variable {cfg : StoreConfig} {st : Store} {r : Ideal cfg} {key : String}

section

variable (h : Refines cfg st r)

include h

theorem bookkept :
    st.index.Bookkept cfg.slotCount Index.NoneAside :=
  h.wellFormed.toBookkept

theorem lookup_of_unmapped (hmap : st.index.map key = none)
    : r.lookup key = none := by
  cases hlookup : r.lookup key with
  | none => rfl
  | some chunk =>
    have hmem : some (key, chunk) ∈ r.entries.map some :=
      List.mem_map_of_mem (Recency.lookup_eq_some_iff.mp hlookup)
    rw [← h.entries] at hmem
    rcases List.mem_map.mp hmem with ⟨slot, hslot, hentry⟩
    have hkeyed := (h.bookkept.mem_recency slot).mp hslot
    rcases Option.ne_none_iff_exists'.mp hkeyed with ⟨k, hk⟩
    rcases h.intact slot k hk with ⟨header, hheader, hname, _⟩
    rw [entryAt, hheader, Option.map_some] at hentry
    have hsame : header.key = key :=
      congrArg Prod.fst (Option.some.inj hentry)
    rw [← hname, hsame] at hk
    rw [h.wellFormed.keyed_map slot key hk] at hmap
    cases hmap

theorem split_of_mapped {slot : Nat} (hmap : st.index.map key = some slot) :
    exists chunk front back before behind,
      fetch cfg st.dir key slot = .ok (some chunk) ∧
        entryAt cfg.chunkSize st.dir slot = some (key, chunk) ∧
        st.index.recency cfg.slotCount = front ++ slot :: back ∧
        r.entries = before ++ (key, chunk) :: behind ∧
        front.map (entryAt cfg.chunkSize st.dir) = before.map some ∧
        back.map (entryAt cfg.chunkSize st.dir) = behind.map some := by
  have hkey := h.bookkept.map_keyed key slot hmap
  have hslot : slot < cfg.slotCount :=
    h.bookkept.keyed_lt slot (by simp [hkey])
  rcases h.intact slot key hkey with ⟨header, hheader, rfl, hcrc⟩
  have hfetch := fetch_of_intact h.sized hslot hheader fun _ => hcrc
  have hentry : entryAt cfg.chunkSize st.dir slot =
      some (header.key, shown cfg.chunkSize st.dir slot header) := by
    rw [entryAt, hheader, Option.map_some]
  rcases List.append_of_mem (h.bookkept.mem_recency_of_key hkey) with
    ⟨front, back, hsplit⟩
  have hentries := h.entries
  rw [hsplit, List.map_append, List.map_cons, hentry] at hentries
  rcases List.map_eq_append_iff.mp hentries.symm with
    ⟨before, rest, hlist, hbefore, hrest⟩
  rcases List.map_eq_cons_iff.mp hrest with
    ⟨entry, behind, hcons, hsame, hbehind⟩
  cases hsame
  subst hcons
  exact ⟨_, front, back, before, behind, hfetch, hentry, hsplit, hlist,
    hbefore.symm, hbehind.symm⟩

theorem length_eq :
    (st.index.recency cfg.slotCount).length = r.entries.length := by
  have hlength := congrArg List.length h.entries
  rw [List.length_map, List.length_map] at hlength
  exact hlength

theorem get (key : String) :
    (st.get cfg key).1 = .ok (r.lookup key) ∧
      Refines cfg (st.get cfg key).2 (r.touch key) := by
  cases hmap : st.index.map key with
  | none =>
    have habsent := h.lookup_of_unmapped hmap
    have hget : st.get cfg key = (.ok none, st) := by
      simp [Store.get, Index.touch, hmap]
    rw [hget, habsent, Recency.touch_of_absent habsent]
    exact ⟨rfl, h⟩
  | some slot =>
    rcases h.split_of_mapped hmap with ⟨chunk, front, back, before, behind,
      hfetch, hentry, hsplit, hlist, hbefore, hbehind⟩
    cases htouch : st.index.touch key with
    | none => simp [Index.touch, hmap] at htouch
    | some found =>
      rcases found with ⟨touched, index⟩
      have hsame := (Index.touch_some htouch).left
      rw [hmap] at hsame
      cases hsame
      have hget : st.get cfg key =
          (.ok (some chunk), { st with index := index }) := by
        simp [Store.get, htouch, hfetch]
      rw [hget, Recency.lookup_of_split hlist]
      refine ⟨rfl, h.wellFormed.touch htouch, h.sized, ?_, ?_⟩
      · intro s k hk
        rw [Index.keyAt_touch htouch] at hk
        exact h.intact s k hk
      · rw [h.bookkept.recency_touch htouch hsplit,
          Recency.entries_touch_of_split hlist]
        simp only [List.map_append, List.map_singleton, hbefore, hbehind,
          hentry]

theorem remove (key : String) :
    (st.remove key).1 = (r.lookup key).isSome ∧
      Refines cfg (st.remove key).2 (r.erase key) := by
  have hremove : st.remove key =
      ((st.index.remove key).1, { st with index := (st.index.remove key).2 }) :=
    rfl
  rw [hremove, Index.remove_eq]
  cases hmap : st.index.map key with
  | none =>
    have habsent := h.lookup_of_unmapped hmap
    rw [habsent, Recency.erase_of_absent habsent]
    exact ⟨rfl, h⟩
  | some slot =>
    rcases h.split_of_mapped hmap with ⟨chunk, front, back, before, behind,
      _, _, hsplit, hlist, hbefore, hbehind⟩
    rw [Recency.lookup_of_split hlist]
    refine ⟨rfl, h.wellFormed.forget slot, h.sized, ?_, ?_⟩
    · intro s k hk
      change (st.index.forget slot).keyAt s = some k at hk
      rw [Index.keyAt_forget] at hk
      split at hk
      · cases hk
      · exact h.intact s k hk
    · show ((st.index.forget slot).recency cfg.slotCount).map _ = _
      rw [h.bookkept.recency_forget hsplit,
        Recency.entries_erase_of_split hlist]
      simp only [List.map_append, hbefore, hbehind]

theorem exists_claim (hmap : st.index.map key = none) (header : SlotHeader) :
    exists slot index, st.index.claim key header = some (slot, index) := by
  unfold Index.claim
  rw [hmap]
  cases hfree : st.index.free with
  | cons slot rest => exact ⟨slot, _, rfl⟩
  | nil =>
    have hfull : ¬ (st.index.recency cfg.slotCount).length < cfg.slotCount :=
      fun hlt => h.bookkept.free_ne_nil_iff.mpr hlt hfree
    have hhead := h.bookkept.enumerates.head
    cases hrecency : st.index.recency cfg.slotCount with
    | nil =>
      rw [hrecency] at hfull
      exact absurd r.roomy hfull
    | cons victim rest =>
      rw [hrecency] at hhead
      have hvictim : st.index.lruHead = some victim := hhead
      rw [hvictim]
      exact ⟨victim, _, rfl⟩

theorem entries_claimed {chunk : CachedChunk} {slot : Nat} {index : Index}
    {header : SlotHeader} (habsent : r.lookup key = none)
    (hclaim : st.index.claim key header = some (slot, index))
    (hwritten : entryAt cfg.chunkSize dir slot = some (key, chunk))
    (hothers : forall s, s ≠ slot ->
      entryAt cfg.chunkSize dir s = entryAt cfg.chunkSize st.dir s) :
    (index.recency cfg.slotCount).map (entryAt cfg.chunkSize dir) =
      (r.insert key chunk).entries.map some := by
  have hframe : forall slots : List Nat, slot ∉ slots ->
      slots.map (entryAt cfg.chunkSize dir) =
        slots.map (entryAt cfg.chunkSize st.dir) := by
    intro slots hnot
    apply List.map_congr_left
    intro s hs
    exact hothers s (fun heq => hnot (heq ▸ hs))
  rw [Recency.entries_insert habsent, ← h.length_eq]
  rcases h.bookkept.recency_claim hclaim with
    ⟨hfree, hnot, horder⟩ | ⟨hfree, rest, hsplit, horder⟩
  · rw [if_pos (h.bookkept.free_ne_nil_iff.mp hfree), horder,
      List.map_append, List.map_append, hframe _ hnot, h.entries,
      List.map_singleton, List.map_singleton, hwritten]
  · have hfull : ¬ (st.index.recency cfg.slotCount).length < cfg.slotCount :=
      fun hlt => h.bookkept.free_ne_nil_iff.mpr hlt hfree
    have hnot : slot ∉ rest := by
      have hnodup := h.bookkept.enumerates.nodup
      rw [hsplit] at hnodup
      exact (List.nodup_cons.mp hnodup).1
    have htail : rest.map (entryAt cfg.chunkSize st.dir) =
        r.entries.tail.map some := by
      have hentries := congrArg List.tail h.entries
      rw [hsplit, List.map_cons, List.tail_cons, ← List.map_tail] at hentries
      exact hentries
    rw [if_neg hfull, horder, List.map_append, List.map_append,
      hframe _ hnot, htail, List.map_singleton, List.map_singleton, hwritten]

theorem put {chunk : CachedChunk} (hkey : key ≠ "")
    (htag : chunk.eTag ≠ some "") (hfits : (putHeader key chunk).Fits)
    (hlen : chunk.body.length ≤ cfg.chunkSize) (hsize : cfg.chunkSize < 2 ^ 32)
    :
    (st.put cfg key chunk).1 = .ok () ∧
      Refines cfg (st.put cfg key chunk).2 (r.insert key chunk) := by
  have hbody := Nat.lt_of_le_of_lt hlen hsize
  cases hmap : st.index.map key with
  | some slot =>
    rcases h.split_of_mapped hmap with
      ⟨_, _, _, _, _, _, _, _, hlist, _, _⟩
    have hput : st.put cfg key chunk = (.ok (), st) := by
      simp [Store.put, Nat.not_lt.mpr hlen, Index.claim, hmap]
    rw [hput, Recency.insert_of_held (Recency.lookup_of_split hlist)]
    exact ⟨rfl, h⟩
  | none =>
    rcases h.exists_claim hmap (putHeader key chunk) with
      ⟨slot, index, hclaim⟩
    have hslot := (h.bookkept.claim hclaim).right
    rw [Store.put_of_claim hlen hclaim hfits]
    refine ⟨rfl, h.wellFormed.claim hclaim,
      sized_writtenSlot h.sized hslot hlen hfits, ?_, ?_⟩
    · intro s k hk
      rw [h.bookkept.keyAt_claim hclaim] at hk
      split at hk
      · rename_i heq
        cases hk
        rw [heq]
        exact intact_writtenSlot_same hfits hkey htag hlen hbody
      · rename_i hne
        exact (h.intact s k hk).writtenSlot_of_ne hfits hlen hne
    · exact h.entries_claimed (h.lookup_of_unmapped hmap) hclaim
        (entryAt_writtenSlot_same hfits hkey htag hlen hbody)
        fun s hne => entryAt_writtenSlot_of_ne hfits hlen hne

theorem apply (hsize : cfg.chunkSize < 2 ^ 32) {op : Op} (hop : op.Storable) :
    (st.apply cfg op).1 = (r.apply op).1 ∧
      Refines cfg (st.apply cfg op).2 (r.apply op).2 := by
  cases op with
  | get key =>
    rcases h.get key with ⟨hanswer, hnext⟩
    exact ⟨congrArg Answer.got hanswer, hnext⟩
  | remove key =>
    rcases h.remove key with ⟨hanswer, hnext⟩
    exact ⟨congrArg Answer.removed hanswer, hnext⟩
  | put key chunk =>
    rcases hop with ⟨hkey, htag, hfits⟩
    by_cases hlong : chunk.body.length > cfg.chunkSize
    · simp only [Store.apply, Store.put_of_tooLong st key hlong, Ideal.apply,
        if_pos hlong, true_and]
      exact h
    · rcases h.put hkey htag hfits (Nat.not_lt.mp hlong) hsize with
        ⟨hanswer, hnext⟩
      simp only [Store.apply, Ideal.apply, if_neg hlong]
      exact ⟨congrArg Answer.stored hanswer, hnext⟩

theorem transcript (hsize : cfg.chunkSize < 2 ^ 32) {ops : List Op}
    (hops : forall op, op ∈ ops -> op.Storable) :
    st.transcript cfg ops = r.transcript ops := by
  induction ops generalizing st r with
  | nil => rfl
  | cons op rest ih =>
    rcases h.apply hsize (hops op List.mem_cons_self) with
      ⟨hanswer, hnext⟩
    rw [Store.transcript, Ideal.transcript, hanswer,
      ih hnext fun op hmem => hops op (List.mem_cons_of_mem _ hmem)]

end

end Refines

/-!
## A store opened empty
-/

/-- The scan finds no slot of the tier in use. -/
def Unused (cfg : StoreConfig) (dir : Directory) : Prop :=
  forall slot, slot < cfg.slotCount ->
    slotHeader cfg.chunkSize dir slot = none

theorem slotCount_pos (cfg : StoreConfig) : 0 < cfg.slotCount :=
  Nat.le_max_right _ _

def Ideal.opened (cfg : StoreConfig) : Ideal cfg :=
  Recency.empty (slotCount_pos cfg)

theorem Unused.sizedTo (h : Unused cfg dir) : Unused cfg (sizedTo cfg dir) := by
  intro slot hslot
  rw [slotHeader_sizedTo]
  exact h slot hslot

theorem wellFormed_scanned_of_unused (hn : cfg.slotCount ≤ 2 ^ 32)
    (h : Unused cfg dir) :
    (scanned cfg dir).WellFormed cfg.slotCount := by
  apply (wellFormed_scanned_iff cfg dir).mpr
  refine ⟨hn, ?_⟩
  intro s t hs _ header other hheader _ _
  rw [h s hs] at hheader
  cases hheader

theorem keyAt_scanned_of_unused (hn : cfg.slotCount ≤ 2 ^ 32)
    (h : Unused cfg dir) (slot : Nat) :
    (scanned cfg dir).keyAt slot = none := by
  have hentered := enteredTo_scanned dir hn
  cases hkey : (scanned cfg dir).keyAt slot with
  | none => rfl
  | some key =>
    have hslot : slot < cfg.slotCount :=
      hentered.bookkept.keyed_lt slot (by simp [hkey])
    rw [hentered.keys slot hslot, h slot hslot] at hkey
    cases hkey

theorem refines_opened (hn : cfg.slotCount ≤ 2 ^ 32) (h : Unused cfg dir) :
    Refines cfg
      { index := scanned cfg (Cache.sizedTo cfg dir),
        dir := Cache.sizedTo cfg dir }
      (Ideal.opened cfg) := by
  have hwell := wellFormed_scanned_of_unused hn h.sizedTo
  have hkeys := keyAt_scanned_of_unused hn h.sizedTo
  refine ⟨hwell, sized_sizedTo cfg dir, ?_, ?_⟩
  · intro slot key hkey
    rw [hkeys slot] at hkey
    cases hkey
  have hnone : (scanned cfg (Cache.sizedTo cfg dir)).recency cfg.slotCount =
      [] := by
    apply List.eq_nil_iff_forall_not_mem.mpr
    intro slot hslot
    exact (hwell.toBookkept.mem_recency slot).mp hslot (hkeys slot)
  show List.map _ ((scanned cfg _).recency cfg.slotCount) = _
  rw [hnone]
  rfl

/-- A store opened empty answers every run of calls as the ideal recency list
of its slot count, and no interleaving of critical sections breaks its
index. -/
theorem store_is_lru_cache {cfg : StoreConfig} {dir : Directory}
    (hslots : cfg.slotCount < 2 ^ 32) (hsize : cfg.chunkSize < 2 ^ 32)
    (haligned : cfg.chunkSize % directIoAlign = 0)
    (hunused : Unused cfg dir) :
    exists opened, openStore cfg dir = .ok opened ∧
      (forall ops, (forall op, op ∈ ops -> op.Storable) ->
        opened.transcript cfg ops = (Ideal.opened cfg).transcript ops) ∧
      (forall sections,
        (opened.index.afterSections sections).WellFormed cfg.slotCount) := by
  have hn := Nat.le_of_lt hslots
  refine ⟨_, openStore_of_aligned dir haligned, ?_, ?_⟩
  · intro ops hops
    exact (refines_opened hn hunused).transcript hsize hops
  · intro sections
    exact (wellFormed_scanned_of_unused hn hunused.sizedTo).afterSections
      sections

theorem unused_noFiles (cfg : StoreConfig) : Unused cfg noFiles :=
  fun slot _ => slotHeader_noFiles cfg.chunkSize slot

theorem store_is_lru_cache_two :
    exists opened, openStore (pageStore 2) noFiles = .ok opened ∧
      opened.transcript (pageStore 2)
          [.put "a" (single 1), .put "b" (single 2), .get "a",
            .put "c" (single 3), .get "b", .get "a"] =
        [(.put "a" (single 1), .stored (.ok ())),
          (.put "b" (single 2), .stored (.ok ())),
          (.get "a", .got (.ok (some (single 1)))),
          (.put "c" (single 3), .stored (.ok ())),
          (.get "b", .got (.ok none)),
          (.get "a", .got (.ok (some (single 1))))] := by
  have hcount : (pageStore 2).slotCount = 2 := slotCount_pageStore Nat.two_pos
  have hslots : (pageStore 2).slotCount < 2 ^ 32 := by
    rw [hcount]
    decide
  rcases store_is_lru_cache hslots (by decide) (aligned_pageStore 2)
    (unused_noFiles _) with ⟨opened, hopen, hrun, _⟩
  refine ⟨opened, hopen, ?_⟩
  rw [hrun]
  · rfl
  · intro op hop
    simp only [List.mem_cons, List.not_mem_nil, or_false] at hop
    rcases hop with rfl | rfl | rfl | rfl | rfl | rfl
    · exact ⟨by decide, by decide, fits_a 1⟩
    · exact ⟨by decide, by decide, fits_b 2⟩
    · trivial
    · exact ⟨by decide, by decide, fits_single 3 (by decide)⟩
    · trivial
    · trivial

end Cache
end Pacer
