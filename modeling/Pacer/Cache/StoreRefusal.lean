import Pacer.Cache.StoreLru

/-!
# Refused puts

A body longer than a slot is refused before the index is touched.  A key or an
ETag past its header budget is only found out while the header page is being
written, when the put has already claimed a slot: the claim is undone, but a
chunk evicted to make room is not brought back.

The main result says exactly which refusals leave the tier as it was.
-/

namespace Pacer
namespace Cache

open Foundation

def Store.evictionOrder (cfg : StoreConfig) (st : Store) :
    List (Option String) :=
  (st.index.recency cfg.slotCount).map st.index.keyAt

/-- The two stores hold the same keys, answer every get alike, and would evict
in the same order. -/
structure SameContents (cfg : StoreConfig) (st st' : Store) : Prop where
  held : forall key, (st'.index.map key).isSome = (st.index.map key).isSome
  got : forall key, (st'.get cfg key).1 = (st.get cfg key).1
  order : st'.evictionOrder cfg = st.evictionOrder cfg

theorem SameContents.refl (cfg : StoreConfig) (st : Store) :
    SameContents cfg st st :=
  ⟨fun _ => rfl, fun _ => rfl, rfl⟩

section Refusal

variable {cfg : StoreConfig} {st : Store} {key : String} {chunk : CachedChunk}
  {message : String}

theorem Store.put_of_not_fits {slot : Nat} {index : Index}
    (hlen : chunk.body.length ≤ cfg.chunkSize)
    (hclaim : st.index.claim key (putHeader key chunk) = some (slot, index))
    (hfits : ¬ (putHeader key chunk).Fits) :
    exists message, st.put cfg key chunk =
      (.error message, { st with index := index.forget slot }) := by
  rcases SlotHeader.writeTo_error_of_not_fits hfits blankPage with
    ⟨message, hmessage⟩
  exists message
  simp [Store.put, Nat.not_lt.mpr hlen, hclaim, writeSlot, hmessage]

theorem Store.put_refused
    (h : (st.put cfg key chunk).1 = .error message) :
    (chunk.body.length > cfg.chunkSize ∧ (st.put cfg key chunk).2 = st) ∨
      (chunk.body.length ≤ cfg.chunkSize ∧
        exists slot index,
          st.index.claim key (putHeader key chunk) = some (slot, index) ∧
          (st.put cfg key chunk).2 =
            { st with index := index.forget slot }) := by
  by_cases hlong : chunk.body.length > cfg.chunkSize
  · left
    rw [Store.put_of_tooLong st key hlong]
    exact ⟨hlong, rfl⟩
  · right
    have hlen := Nat.not_lt.mp hlong
    refine ⟨hlen, ?_⟩
    cases hclaim : st.index.claim key (putHeader key chunk) with
    | none =>
      simp [Store.put, hlong, hclaim] at h
    | some found =>
      rcases found with ⟨slot, index⟩
      refine ⟨slot, index, rfl, ?_⟩
      by_cases hfits : (putHeader key chunk).Fits
      · rw [Store.put_of_claim hlen hclaim hfits] at h
        cases h
      rcases Store.put_of_not_fits hlen hclaim hfits with
        ⟨reason, hput⟩
      rw [hput]

theorem get_fst_of_same_map {index : Index}
    (hmap : index.map = st.index.map) (k : String) :
    (Store.get cfg { st with index := index } k).1 = (st.get cfg k).1 := by
  cases hk : st.index.map k with
  | none =>
    rw [Store.get_fst_of_not_map hk]
    apply Store.get_fst_of_not_map
    show index.map k = none
    rw [hmap, hk]
  | some slot =>
    rw [Store.get_fst_of_map hk]
    apply Store.get_fst_of_map
    show index.map k = some slot
    rw [hmap, hk]

variable {slot : Nat} {index : Index} {header : SlotHeader}

theorem sameContents_of_free
    (h : st.index.Bookkept cfg.slotCount Index.NoneAside)
    (hclaim : st.index.claim key header = some (slot, index))
    (hfree : st.index.free ≠ []) :
    SameContents cfg st { st with index := index.forget slot } := by
  have hkept := (h.claim hclaim).left
  have hkeyAt : index.keyAt slot = some key := by
    rw [h.keyAt_claim hclaim, if_pos rfl]
  have hmap : (index.forget slot).map = st.index.map := by
    rw [Index.map_forget_of_keyed hkeyAt]
    rcases Index.claim_some hclaim with
      ⟨hnew, ⟨rest, _, rfl⟩ | ⟨hnil, _, _⟩⟩
    · rw [Index.map_occupy, Function.update_idem, ← hnew,
        Function.update_eq_self]
    · exact absurd hnil hfree
  rcases h.recency_claim hclaim with ⟨_, hnot, horder⟩ | ⟨hnil, _⟩
  · have hback : (index.forget slot).recency cfg.slotCount =
        st.index.recency cfg.slotCount := by
      rw [hkept.recency_forget horder, List.append_nil]
    constructor
    · intro k
      show ((index.forget slot).map k).isSome = _
      rw [hmap]
    · exact get_fst_of_same_map hmap
    · show ((index.forget slot).recency cfg.slotCount).map
        (index.forget slot).keyAt = _
      rw [hback]
      apply List.map_congr_left
      intro s hs
      have hne : s ≠ slot := fun heq => hnot (heq ▸ hs)
      rw [Index.keyAt_forget, if_neg hne, h.keyAt_claim hclaim, if_neg hne]
  · exact absurd hnil hfree

theorem not_sameContents_of_full
    (h : st.index.Bookkept cfg.slotCount Index.NoneAside)
    (hclaim : st.index.claim key header = some (slot, index))
    (hfull : st.index.free = []) :
    ¬ SameContents cfg st { st with index := index.forget slot } := by
  intro hsame
  have hkept := (h.claim hclaim).left
  rcases h.recency_claim hclaim with ⟨hfree, _⟩ | ⟨_, rest, hsplit, horder⟩
  · exact hfree hfull
  · have hlength := congrArg List.length hsame.order
    unfold Store.evictionOrder at hlength
    rw [List.length_map, List.length_map, hkept.recency_forget horder,
      hsplit] at hlength
    simp at hlength

/-- A refused put leaves the tier as it was exactly when it was refused for its
body, or there was a free slot to claim. -/
theorem refused_put_costs_nothing_iff {dir : Directory} {opened : Store}
    (hn : cfg.slotCount ≤ 2 ^ 32) (hopen : openStore cfg dir = .ok opened)
    (ops : List Op)
    (hrefused : ((opened.after cfg ops).put cfg key chunk).1 =
      .error message) :
    SameContents cfg (opened.after cfg ops)
        ((opened.after cfg ops).put cfg key chunk).2 <->
      chunk.body.length > cfg.chunkSize ∨
        (opened.after cfg ops).index.free ≠ [] := by
  have hkept := (kept_after (kept_openStore hn hopen) ops).bookkept
  rcases Store.put_refused hrefused with
    ⟨hlong, hst⟩ | ⟨hlen, slot, index, hclaim, hst⟩
  · rw [hst]
    constructor
    · intro _
      exact Or.inl hlong
    · intro _
      exact SameContents.refl cfg _
  · rw [hst]
    constructor
    · intro hsame
      right
      intro hfull
      exact not_sameContents_of_full hkept hclaim hfull hsame
    · rintro (hlong | hfree)
      · exact absurd hlen (Nat.not_le.mpr hlong)
      · exact sameContents_of_free hkept hclaim hfree

end Refusal

def longBodied : CachedChunk :=
  { body := List.replicate 4097 0, eTag := none }

theorem longBodied_tooLong (slots : Nat) :
    longBodied.body.length > (pageStore slots).chunkSize := by
  show (List.replicate 4097 (0 : UInt8)).length > 4096
  rw [List.length_replicate]
  lia

/-- On a full tier of one slot, a body past the slot is refused for nothing. -/
theorem refused_put_costs_nothing_long :
    exists opened, openStore (pageStore 1) noFiles = .ok opened ∧
      SameContents (pageStore 1)
        (opened.after (pageStore 1) [.put "a" (single 1)])
        ((opened.after (pageStore 1) [.put "a" (single 1)]).put (pageStore 1)
          "b" longBodied).2 := by
  have hlong := longBodied_tooLong 1
  refine ⟨_, openStore_oneSlot, ?_⟩
  exact (refused_put_costs_nothing_iff slotCount_pageStore_one openStore_oneSlot _
    (congrArg Prod.fst (Store.put_of_tooLong _ "b" hlong))).mpr (Or.inl hlong)

/-!
## A chunk lost to a refused put
-/

def longTagged : CachedChunk :=
  { body := [2], eTag := some (String.ofList (List.replicate 257 'x')) }

theorem not_fits_longTagged : ¬ (putHeader "b" longTagged).Fits := by
  decide +kernel

def holdingA : Index :=
  ({ Index.empty with free := [] } : Index).occupy 0 "a" 1 (bodyCrc [1])

/-- On a full tier of one slot the put of `b` is refused, and `a` is gone. -/
theorem refused_put_evicts :
    exists opened, openStore (pageStore 1) noFiles = .ok opened ∧
      (exists message,
        ((opened.after (pageStore 1) [.put "a" (single 1)]).put (pageStore 1)
          "b" longTagged).1 = .error message) ∧
      ((opened.after (pageStore 1) [.put "a" (single 1)]).get (pageStore 1)
        "a").1 = .ok (some (single 1)) ∧
      (((opened.after (pageStore 1) [.put "a" (single 1)]).put (pageStore 1)
        "b" longTagged).2.get (pageStore 1) "a").1 = .ok none := by
  have hopened := refines_opened slotCount_pageStore_one
    (unused_noFiles (pageStore 1))
  rw [scanned_noFiles, slotCount_pageStore Nat.one_pos] at hopened
  have hstored : Op.Storable (.put "a" (single 1)) :=
    ⟨by decide, by decide, fits_a 1⟩
  have hget := ((hopened.apply (by decide) hstored).right.get "a").left
  have hafter : forall dir, Store.after (pageStore 1)
      { index := { Index.empty with free := [0] }, dir := dir }
      [.put "a" (single 1)] =
        { index := holdingA,
          dir := writtenSlot (pageStore 1) dir 0 "a" (single 1) } := by
    intro dir
    exact Store.after_put [] (length_single_le 1 1) rfl (fits_a 1)
  have hlen : longTagged.body.length ≤ (pageStore 1).chunkSize := by
    show 1 ≤ 4096
    lia
  have hput : forall dir, exists message,
      Store.put (pageStore 1) { index := holdingA, dir := dir } "b"
          longTagged =
        (.error message,
          { index := ((holdingA.evict 0).2.occupy 0 "b" 1
              (bodyCrc [2])).forget 0,
            dir := dir }) := by
    intro dir
    exact Store.put_of_not_fits hlen rfl not_fits_longTagged
  rcases hput (writtenSlot (pageStore 1) (sizedTo (pageStore 1) noFiles) 0 "a"
    (single 1)) with ⟨message, hput⟩
  refine ⟨_, openStore_oneSlot, ⟨message, ?_⟩, hget, ?_⟩
  · rw [hafter, hput]
  · rw [hafter, hput]
    exact Store.get_fst_of_not_map rfl

end Cache
end Pacer
