import Pacer.Cache.Layout
import Pacer.Foundation.LinkedList

/-!
# The in-memory index

Which slot holds which key, the slots no key holds, and the recency order that
picks the slot to reuse.  The recency links run through the slots themselves.

Two predicates describe an index over `n` slots.  `Bookkept` is what every
operation keeps up whatever the disk said at startup: the links spell the keyed
slots, the free list holds the others, and a mapped key is in the slot it maps
to.  `WellFormed` adds the converse, that a slot's key maps back to it, and so
that no key owns two slots.
-/

namespace Pacer
namespace Cache

open Foundation Function

/-- One slot's place in the index: the key it holds, if any, what was written
for it, and its neighbours in recency order. -/
structure Slot where
  key : Option String
  bodyLen : UInt32
  bodyCrc : UInt32
  prev : Option Nat
  next : Option Nat
deriving DecidableEq, Repr

def Slot.empty : Slot :=
  { key := none, bodyLen := 0, bodyCrc := 0, prev := none, next := none }

structure Index where
  map : String -> Option Nat
  slots : Nat -> Slot
  free : List Nat
  lruHead : Option Nat
  lruTail : Option Nat

namespace Index

def empty : Index :=
  { map := fun _ => none,
    slots := fun _ => Slot.empty,
    free := [],
    lruHead := none,
    lruTail := none }

def setSlot (idx : Index) (slot : Nat) (f : Slot -> Slot) : Index :=
  { idx with slots := update idx.slots slot (f (idx.slots slot)) }

def unlinkLinked (idx : Index) (slot : Nat) : Index :=
  let prev := (idx.slots slot).prev
  let next := (idx.slots slot).next
  let idx :=
    match prev with
    | some p => idx.setSlot p fun s => { s with next := next }
    | none => { idx with lruHead := next }
  let idx :=
    match next with
    | some n => idx.setSlot n fun s => { s with prev := prev }
    | none => { idx with lruTail := prev }
  idx.setSlot slot fun s => { s with prev := none, next := none }

def pushBack (idx : Index) (slot : Nat) : Index :=
  let oldTail := idx.lruTail
  let idx := { idx with lruTail := some slot }
  let idx := idx.setSlot slot fun s => { s with prev := oldTail, next := none }
  match oldTail with
  | some t => idx.setSlot t fun s => { s with next := some slot }
  | none => { idx with lruHead := some slot }

def occupy (idx : Index) (slot : Nat) (key : String)
    (bodyLen bodyCrc : UInt32) : Index :=
  let idx := idx.setSlot slot fun s =>
    { s with key := some key, bodyLen := bodyLen, bodyCrc := bodyCrc }
  let idx := { idx with map := update idx.map key (some slot) }
  idx.pushBack slot

def evict (idx : Index) (slot : Nat) : Bool × Index :=
  match (idx.slots slot).key with
  | none => (false, idx)
  | some key =>
    let idx := idx.setSlot slot fun s => { s with key := none }
    let idx := idx.unlinkLinked slot
    (true, { idx with map := update idx.map key none })

def touch (idx : Index) (key : String) : Option (Nat × Index) :=
  match idx.map key with
  | none => none
  | some slot => some (slot, (idx.unlinkLinked slot).pushBack slot)

/-- Reserve a slot for `key`: a free one, or the least recently used one.
`none` when the key is already held. -/
def claim (idx : Index) (key : String) (header : SlotHeader) :
    Option (Nat × Index) :=
  if (idx.map key).isSome then
    none
  else
    match idx.free with
    | slot :: rest =>
      let idx := { idx with free := rest }
      some (slot, idx.occupy slot key header.bodyLen header.bodyCrc)
    | [] =>
      match idx.lruHead with
      | none => none
      | some victim =>
        let idx := (idx.evict victim).2
        some (victim, idx.occupy victim key header.bodyLen header.bodyCrc)

def forget (idx : Index) (slot : Nat) : Index :=
  match idx.evict slot with
  | (true, idx) => { idx with free := slot :: idx.free }
  | (false, idx) => idx

def remove (idx : Index) (key : String) : Bool × Index :=
  match idx.map key with
  | none => (false, idx)
  | some slot =>
    match idx.evict slot with
    | (true, idx) => (true, { idx with free := slot :: idx.free })
    | (false, idx) => (true, idx)

/-!
## Views

The key of a slot and the links through the slots.  Linking operations change
the second only.
-/

def keyAt (idx : Index) (slot : Nat) : Option String :=
  (idx.slots slot).key

def links (idx : Index) : Links Nat :=
  { prev := fun s => (idx.slots s).prev,
    next := fun s => (idx.slots s).next,
    head := idx.lruHead,
    tail := idx.lruTail }

variable {idx idx' : Index} {slot n : Nat} {key : String} {header : SlotHeader}

theorem links_eq {l : Links Nat}
    (hprev : forall s, (idx.slots s).prev = l.prev s)
    (hnext : forall s, (idx.slots s).next = l.next s)
    (hhead : idx.lruHead = l.head) (htail : idx.lruTail = l.tail) :
    idx.links = l := by
  cases l
  simp only [links, Links.mk.injEq]
  exact ⟨funext hprev, funext hnext, hhead, htail⟩

theorem links_unlinkLinked (idx : Index) (slot : Nat) :
    (idx.unlinkLinked slot).links = idx.links.unlink slot := by
  cases hprev : (idx.slots slot).prev <;> cases hnext : (idx.slots slot).next <;>
  · apply links_eq <;>
      simp [unlinkLinked, Links.unlink, links, setSlot, hprev, hnext] <;>
    · intro s
      simp only [update_apply]
      split_ifs <;> simp_all

theorem keyAt_unlinkLinked (idx : Index) (slot s : Nat) :
    (idx.unlinkLinked slot).keyAt s = idx.keyAt s := by
  cases hprev : (idx.slots slot).prev <;> cases hnext : (idx.slots slot).next <;>
  · simp only [unlinkLinked, keyAt, setSlot, hprev, hnext, update_apply]
    split_ifs <;> simp_all

@[simp] theorem map_unlinkLinked (idx : Index) (slot : Nat) :
    (idx.unlinkLinked slot).map = idx.map := by
  cases hprev : (idx.slots slot).prev <;> cases hnext : (idx.slots slot).next <;>
    simp [unlinkLinked, setSlot, hprev, hnext]

@[simp] theorem free_unlinkLinked (idx : Index) (slot : Nat) :
    (idx.unlinkLinked slot).free = idx.free := by
  cases hprev : (idx.slots slot).prev <;> cases hnext : (idx.slots slot).next <;>
    simp [unlinkLinked, setSlot, hprev, hnext]

theorem links_pushBack (idx : Index) (slot : Nat) :
    (idx.pushBack slot).links = idx.links.pushBack slot := by
  cases htail : idx.lruTail <;>
  · apply links_eq <;>
      simp [pushBack, Links.pushBack, links, setSlot, htail] <;>
    · intro s
      simp only [update_apply]
      split_ifs <;> simp_all

theorem keyAt_pushBack (idx : Index) (slot s : Nat) :
    (idx.pushBack slot).keyAt s = idx.keyAt s := by
  cases htail : idx.lruTail <;>
  · simp only [pushBack, keyAt, setSlot, htail, update_apply]
    split_ifs <;> simp_all

@[simp] theorem map_pushBack (idx : Index) (slot : Nat) :
    (idx.pushBack slot).map = idx.map := by
  cases htail : idx.lruTail <;> simp [pushBack, setSlot, htail]

@[simp] theorem free_pushBack (idx : Index) (slot : Nat) :
    (idx.pushBack slot).free = idx.free := by
  cases htail : idx.lruTail <;> simp [pushBack, setSlot, htail]

theorem keyAt_occupy (idx : Index) (slot : Nat) (key : String)
    (bodyLen bodyCrc : UInt32) (s : Nat) :
    (idx.occupy slot key bodyLen bodyCrc).keyAt s =
      if s = slot then some key else idx.keyAt s := by
  rw [occupy, keyAt_pushBack]
  by_cases hs : s = slot
  · simp [keyAt, setSlot, hs]
  · simp [keyAt, setSlot, hs]

@[simp] theorem map_occupy (idx : Index) (slot : Nat) (key : String)
    (bodyLen bodyCrc : UInt32) :
    (idx.occupy slot key bodyLen bodyCrc).map =
      update idx.map key (some slot) := by
  simp [occupy, setSlot]

@[simp] theorem free_occupy (idx : Index) (slot : Nat) (key : String)
    (bodyLen bodyCrc : UInt32) :
    (idx.occupy slot key bodyLen bodyCrc).free = idx.free := by
  simp [occupy, setSlot]

theorem links_occupy (idx : Index) (slot : Nat) (key : String)
    (bodyLen bodyCrc : UInt32) :
    (idx.occupy slot key bodyLen bodyCrc).links = idx.links.pushBack slot := by
  rw [occupy, links_pushBack]
  congr 1
  apply links_eq <;> simp [links, setSlot] <;>
  · intro s
    rw [update_apply]
    split_ifs with hs <;> simp [hs]

theorem evict_of_free (h : idx.keyAt slot = none) :
    idx.evict slot = (false, idx) := by
  unfold keyAt at h
  simp [evict, h]

theorem evict_fst (h : idx.keyAt slot = some key)
    : (idx.evict slot).1 = true := by
  unfold keyAt at h
  simp [evict, h]

theorem keyAt_evict (h : idx.keyAt slot = some key) (s : Nat) :
    (idx.evict slot).2.keyAt s = if s = slot then none else idx.keyAt s := by
  unfold keyAt at h
  simp only [evict, h]
  change ((idx.setSlot slot fun s => { s with key := none }).unlinkLinked
    slot).keyAt s = _
  rw [keyAt_unlinkLinked]
  by_cases hs : s = slot
  · simp [keyAt, setSlot, hs]
  · simp [keyAt, setSlot, hs]

theorem map_evict (h : idx.keyAt slot = some key) :
    (idx.evict slot).2.map = update idx.map key none := by
  unfold keyAt at h
  simp [evict, h, setSlot]

theorem free_evict (idx : Index) (slot : Nat) :
    (idx.evict slot).2.free = idx.free := by
  cases h : (idx.slots slot).key <;> simp [evict, h, setSlot]

theorem links_evict (h : idx.keyAt slot = some key) :
    (idx.evict slot).2.links = idx.links.unlink slot := by
  unfold keyAt at h
  simp only [evict, h]
  change ((idx.setSlot slot fun s => { s with key := none }).unlinkLinked
    slot).links = _
  rw [links_unlinkLinked]
  congr 1
  apply links_eq <;> simp [links, setSlot] <;>
  · intro s
    rw [update_apply]
    split_ifs with hs <;> simp [hs]

/-!
## What every operation keeps up

An operation takes a slot out of the free list or out of the keyed ones before
it puts it back among them.  `aside` is the set of slots in between; the scan
starts with all of them there.
-/

structure Bookkept (n : Nat) (aside : Nat -> Prop) (idx : Index) : Prop where
  linked : exists order, idx.links.Enumerates order ∧
    forall s, s ∈ order <-> idx.keyAt s ≠ none
  keyed_lt : forall s, idx.keyAt s ≠ none -> s < n
  free_nodup : idx.free.Nodup
  free_iff : forall s,
    s ∈ idx.free <-> s < n ∧ idx.keyAt s = none ∧ ¬ aside s
  aside_unkeyed : forall s, aside s -> idx.keyAt s = none
  map_keyed : forall key s, idx.map key = some s -> idx.keyAt s = some key

def NoneAside : Nat -> Prop := fun _ => False

/-- The index of `n` slots is well formed: the map and the slots' keys are
mutually inverse, the links spell the keyed slots, and the free list holds the
others once each. -/
structure WellFormed (n : Nat) (idx : Index) : Prop
    extends Bookkept n NoneAside idx where
  keyed_map : forall s key, idx.keyAt s = some key -> idx.map key = some s

variable {aside : Nat -> Prop}

theorem Bookkept.congr {aside' : Nat -> Prop} (h : Bookkept n aside idx)
    (hsame : forall s, aside' s <-> aside s) :
    Bookkept n aside' idx := by
  have heq : aside' = aside := funext fun s => propext (hsame s)
  rw [heq]
  exact h

theorem Bookkept.pop {rest : List Nat} (h : Bookkept n NoneAside idx)
    (hfree : idx.free = slot :: rest) :
    Bookkept n (fun s => s = slot) { idx with free := rest } := by
  have hnodup := h.free_nodup
  rw [hfree] at hnodup
  have hslot := (List.nodup_cons.mp hnodup).1
  refine ⟨h.linked, h.keyed_lt, (List.nodup_cons.mp hnodup).2, ?_, ?_,
    h.map_keyed⟩
  · intro s
    have hiff := h.free_iff s
    rw [hfree, List.mem_cons] at hiff
    constructor
    · intro hs
      rcases hiff.mp (Or.inr hs) with ⟨hlt, hkey, _⟩
      exact ⟨hlt, hkey, fun heq => hslot (heq ▸ hs)⟩
    · rintro ⟨hlt, hkey, hne⟩
      rcases hiff.mpr ⟨hlt, hkey, not_false⟩ with heq | hs
      · exact absurd heq hne
      · exact hs
  · intro s hs
    have hmem : s ∈ idx.free := by simp [hfree, hs]
    exact ((h.free_iff s).mp hmem).2.1

theorem Bookkept.push (h : Bookkept n aside idx) (haside : aside slot)
    (hlt : slot < n) :
    Bookkept n (fun s => aside s ∧ s ≠ slot)
      { idx with free := slot :: idx.free } := by
  refine ⟨h.linked, h.keyed_lt, ?_, ?_, fun s hs => h.aside_unkeyed s hs.1,
    h.map_keyed⟩
  · exact List.nodup_cons.mpr
      ⟨fun hmem => ((h.free_iff slot).mp hmem).2.2 haside, h.free_nodup⟩
  · intro s
    have hiff := h.free_iff s
    change s ∈ slot :: idx.free <-> _
    rw [List.mem_cons]
    constructor
    · rintro (heq | hs)
      · subst heq
        exact ⟨hlt, h.aside_unkeyed s haside, fun hs => hs.2 rfl⟩
      · rcases hiff.mp hs with ⟨hs, hkey, hnot⟩
        exact ⟨hs, hkey, fun hboth => hnot hboth.1⟩
    · rintro ⟨hs, hkey, hnot⟩
      by_cases heq : s = slot
      · exact Or.inl heq
      · exact Or.inr (hiff.mpr ⟨hs, hkey, fun ha => hnot ⟨ha, heq⟩⟩)

theorem Bookkept.occupy (h : Bookkept n aside idx) (haside : aside slot)
    (hlt : slot < n) (key : String) (bodyLen bodyCrc : UInt32) :
    Bookkept n (fun s => aside s ∧ s ≠ slot)
      (idx.occupy slot key bodyLen bodyCrc) := by
  have hunkeyed := h.aside_unkeyed slot haside
  rcases h.linked with ⟨order, henum, horder⟩
  have hnot : slot ∉ order := fun hmem => (horder slot).mp hmem hunkeyed
  refine ⟨⟨order ++ [slot], ?_, ?_⟩, ?_, ?_, ?_, ?_, ?_⟩
  · rw [links_occupy]
    exact Links.pushBack_enumerates henum hnot
  · intro s
    rw [keyAt_occupy, List.mem_append, List.mem_singleton, horder s]
    by_cases heq : s = slot <;> simp [heq]
  · intro s hs
    rw [keyAt_occupy] at hs
    by_cases heq : s = slot
    · exact heq ▸ hlt
    · rw [if_neg heq] at hs
      exact h.keyed_lt s hs
  · rw [free_occupy]
    exact h.free_nodup
  · intro s
    rw [free_occupy, h.free_iff s, keyAt_occupy]
    by_cases heq : s = slot
    · simp [heq, haside]
    · simp [heq]
  · intro s hs
    rw [keyAt_occupy, if_neg hs.2]
    exact h.aside_unkeyed s hs.1
  · intro k s hmap
    rw [map_occupy, update_apply] at hmap
    rw [keyAt_occupy]
    by_cases hk : k = key
    · rw [if_pos hk] at hmap
      cases hmap
      simp [hk]
    · rw [if_neg hk] at hmap
      have hkeyed := h.map_keyed k s hmap
      have hne : s ≠ slot := by
        intro heq
        rw [heq, hunkeyed] at hkeyed
        cases hkeyed
      rw [if_neg hne]
      exact hkeyed

theorem Bookkept.evict (h : Bookkept n NoneAside idx)
    (hkey : idx.keyAt slot = some key) :
    Bookkept n (fun s => s = slot) (idx.evict slot).2 := by
  rcases h.linked with ⟨order, henum, horder⟩
  have hmem : slot ∈ order := (horder slot).mpr (by simp [hkey])
  rcases List.append_of_mem hmem with ⟨front, back, hsplit⟩
  subst hsplit
  have hnodup := henum.nodup
  refine ⟨⟨front ++ back, ?_, ?_⟩, ?_, ?_, ?_, ?_, ?_⟩
  · rw [links_evict hkey]
    exact Links.unlink_enumerates henum
  · intro s
    rw [keyAt_evict hkey]
    have hiff := horder s
    by_cases heq : s = slot
    · subst heq
      simp [List.nodup_append] at hnodup
      simp only [if_true, ne_eq, not_true_eq_false, iff_false,
        List.mem_append, not_or]
      exact ⟨fun hf => (hnodup.2.2 s hf).1 rfl, hnodup.2.1.1⟩
    · rw [if_neg heq, ← hiff]
      simp [heq]
  · intro s hs
    rw [keyAt_evict hkey] at hs
    by_cases heq : s = slot
    · simp [heq] at hs
    · rw [if_neg heq] at hs
      exact h.keyed_lt s hs
  · rw [free_evict]
    exact h.free_nodup
  · intro s
    rw [free_evict, h.free_iff s, keyAt_evict hkey]
    by_cases heq : s = slot
    · simp [heq, hkey]
    · simp [heq, NoneAside]
  · intro s hs
    rw [keyAt_evict hkey, if_pos hs]
  · intro k s hmap
    rw [map_evict hkey, update_apply] at hmap
    by_cases hk : k = key
    · simp [hk] at hmap
    · rw [if_neg hk] at hmap
      have hkeyed := h.map_keyed k s hmap
      have hne : s ≠ slot := by
        intro heq
        rw [heq, hkey] at hkeyed
        exact hk (Option.some.inj hkeyed).symm
      rw [keyAt_evict hkey, if_neg hne]
      exact hkeyed

/-!
## The four critical sections
-/

theorem touch_some (h : idx.touch key = some (slot, idx')) :
    idx.map key = some slot ∧
      idx' = (idx.unlinkLinked slot).pushBack slot := by
  unfold touch at h
  cases hmap : idx.map key with
  | none => simp [hmap] at h
  | some s =>
    simp only [hmap, Option.some.injEq, Prod.mk.injEq] at h
    rcases h with ⟨rfl, rfl⟩
    exact ⟨rfl, rfl⟩

theorem Bookkept.touch (h : Bookkept n NoneAside idx)
    (htouch : idx.touch key = some (slot, idx')) :
    Bookkept n NoneAside idx' := by
  rcases touch_some htouch with ⟨hmap, rfl⟩
  have hkeyAt : forall s,
      ((idx.unlinkLinked slot).pushBack slot).keyAt s = idx.keyAt s := by
    intro s
    rw [keyAt_pushBack, keyAt_unlinkLinked]
  rcases h.linked with ⟨order, henum, horder⟩
  have hkey := h.map_keyed key slot hmap
  have hmem : slot ∈ order := (horder slot).mpr (by simp [hkey])
  rcases List.append_of_mem hmem with ⟨front, back, hsplit⟩
  subst hsplit
  have hnot : slot ∉ front ++ back := by
    have hnodup := henum.nodup
    rw [List.nodup_append, List.nodup_cons] at hnodup
    rw [List.mem_append, not_or]
    exact ⟨fun hf => hnodup.2.2 slot hf slot (by simp) rfl, hnodup.2.1.1⟩
  refine ⟨⟨(front ++ back) ++ [slot], ?_, ?_⟩, ?_, ?_, ?_, ?_, ?_⟩
  · rw [links_pushBack, links_unlinkLinked]
    exact Links.pushBack_enumerates (Links.unlink_enumerates henum) hnot
  · intro s
    rw [hkeyAt s, ← horder s]
    simp only [List.mem_append, List.mem_cons, List.not_mem_nil, or_false]
    tauto
  · intro s hs
    rw [hkeyAt s] at hs
    exact h.keyed_lt s hs
  · simpa using h.free_nodup
  · intro s
    rw [free_pushBack, free_unlinkLinked, h.free_iff s, hkeyAt s]
  · intro s hs
    cases hs
  · intro k s hk
    rw [map_pushBack, map_unlinkLinked] at hk
    rw [hkeyAt s]
    exact h.map_keyed k s hk

theorem forget_of_free (h : idx.keyAt slot = none) :
    idx.forget slot = idx := by
  simp [forget, evict_of_free h]

theorem forget_of_keyed (h : idx.keyAt slot = some key) :
    idx.forget slot =
      { (idx.evict slot).2 with free := slot :: (idx.evict slot).2.free } := by
  have hfst := evict_fst h
  unfold forget
  cases hevict : idx.evict slot with
  | mk evicted idx' =>
    rw [hevict] at hfst
    cases hfst
    rfl

theorem remove_eq (idx : Index) (key : String) :
    idx.remove key =
      match idx.map key with
      | none => (false, idx)
      | some slot => (true, idx.forget slot) := by
  unfold remove forget
  cases idx.map key with
  | none => rfl
  | some slot =>
    cases hevict : idx.evict slot with
    | mk evicted idx' =>
      cases evicted with
      | false => simp [hevict]
      | true => simp [hevict]

theorem Bookkept.forget (h : Bookkept n NoneAside idx) (slot : Nat) :
    Bookkept n NoneAside (idx.forget slot) := by
  cases hkey : idx.keyAt slot with
  | none =>
    rw [forget_of_free hkey]
    exact h
  | some key =>
    have hlt : slot < n := h.keyed_lt slot (by simp [hkey])
    rw [forget_of_keyed hkey]
    refine ((h.evict hkey).push rfl hlt).congr ?_
    intro s
    simp [NoneAside]

theorem Bookkept.remove (h : Bookkept n NoneAside idx) (key : String) :
    Bookkept n NoneAside (idx.remove key).2 := by
  rw [remove_eq]
  cases idx.map key with
  | none => exact h
  | some slot => exact h.forget slot

theorem map_forget {slot s : Nat} (h : (idx.forget slot).map key = some s) :
    idx.map key = some s ∧ idx.keyAt slot ≠ some key := by
  cases hkey : idx.keyAt slot with
  | none =>
    rw [forget_of_free hkey] at h
    exact ⟨h, fun heq => by cases heq⟩
  | some held =>
    rw [forget_of_keyed hkey] at h
    change (idx.evict slot).2.map key = some s at h
    rw [map_evict hkey, update_apply] at h
    split at h
    · cases h
    rename_i hne
    refine ⟨h, ?_⟩
    intro heq
    exact hne (Option.some.inj heq).symm

theorem claim_some (h : idx.claim key header = some (slot, idx')) :
    idx.map key = none ∧
      ((exists rest, idx.free = slot :: rest ∧
          idx' = ({ idx with free := rest } : Index).occupy slot key
            header.bodyLen header.bodyCrc) ∨
        (idx.free = [] ∧ idx.lruHead = some slot ∧
          idx' = (idx.evict slot).2.occupy slot key
            header.bodyLen header.bodyCrc)) := by
  unfold claim at h
  split at h
  · cases h
  rename_i hmap
  refine ⟨by simpa using hmap, ?_⟩
  split at h
  · rename_i top rest hfree
    cases h
    exact Or.inl ⟨rest, hfree, rfl⟩
  · rename_i hfree
    split at h
    · cases h
    rename_i victim hhead
    cases h
    exact Or.inr ⟨hfree, hhead, rfl⟩

theorem Bookkept.keyAt_lruHead (h : Bookkept n aside idx)
    (hhead : idx.lruHead = some slot) :
    exists key, idx.keyAt slot = some key := by
  rcases h.linked with ⟨order, henum, horder⟩
  have hfirst : order.head? = some slot := by
    rw [← henum.head]
    exact hhead
  have hkeyed := (horder slot).mp (List.mem_of_head? hfirst)
  exact Option.ne_none_iff_exists'.mp hkeyed

theorem Bookkept.claim (h : Bookkept n NoneAside idx)
    (hclaim : idx.claim key header = some (slot, idx')) :
    Bookkept n NoneAside idx' ∧ slot < n := by
  rcases claim_some hclaim with ⟨_, ⟨rest, hfree, rfl⟩ | ⟨_, hhead, rfl⟩⟩
  · have hlt : slot < n := ((h.free_iff slot).mp (by simp [hfree])).1
    refine ⟨((h.pop hfree).occupy rfl hlt _ _ _).congr ?_, hlt⟩
    intro s
    simp [NoneAside]
  · rcases h.keyAt_lruHead hhead with ⟨victim, hvictim⟩
    have hlt : slot < n := h.keyed_lt slot (by simp [hvictim])
    refine ⟨((h.evict hvictim).occupy rfl hlt _ _ _).congr ?_, hlt⟩
    intro s
    simp [NoneAside]

theorem Bookkept.map_claim (h : Bookkept n NoneAside idx)
    (hclaim : idx.claim key header = some (slot, idx')) {k : String} {s : Nat}
    (hmap : idx'.map k = some s) :
    (k = key ∧ s = slot) ∨ (idx.map k = some s ∧ s ≠ slot) := by
  rcases claim_some hclaim with ⟨_, ⟨rest, hfree, rfl⟩ | ⟨_, hhead, rfl⟩⟩
  · rw [map_occupy, update_apply] at hmap
    split at hmap
    · rename_i hk
      cases hmap
      exact Or.inl ⟨hk, rfl⟩
    · right
      refine ⟨hmap, ?_⟩
      rintro rfl
      have hunkeyed := ((h.free_iff s).mp (by simp [hfree])).2.1
      have hkeyed := h.map_keyed k s hmap
      rw [hunkeyed] at hkeyed
      cases hkeyed
  · rcases h.keyAt_lruHead hhead with ⟨victim, hvictim⟩
    rw [map_occupy, map_evict hvictim, update_apply] at hmap
    split at hmap
    · rename_i hk
      cases hmap
      exact Or.inl ⟨hk, rfl⟩
    · right
      rw [update_apply] at hmap
      split at hmap
      · cases hmap
      rename_i hkv
      refine ⟨hmap, ?_⟩
      rintro rfl
      have hkeyed := h.map_keyed k s hmap
      rw [hvictim] at hkeyed
      exact hkv (Option.some.inj hkeyed).symm

/-!
## Slots in range

Whatever else is true of an index, the slots it names stay below the slot
count it was built for.
-/

structure Bounded (n : Nat) (idx : Index) : Prop where
  map_lt : forall key s, idx.map key = some s -> s < n
  free_lt : forall s, s ∈ idx.free -> s < n
  links_lt : idx.links.All fun s => s < n

theorem bounded_empty (n : Nat) : Bounded n Index.empty := by
  refine ⟨?_, ?_, ?_, ?_, ?_, ?_⟩ <;> simp [Index.empty, links, Slot.empty]

section

variable (h : Bounded n idx)

include h

theorem Bounded.occupy {slot : Nat} (hlt : slot < n) (key : String)
    (bodyLen bodyCrc : UInt32) :
    Bounded n (idx.occupy slot key bodyLen bodyCrc) := by
  refine ⟨?_, ?_, ?_⟩
  · intro k s hmap
    rw [map_occupy, update_apply] at hmap
    split at hmap
    · cases hmap
      exact hlt
    · exact h.map_lt k s hmap
  · intro s hs
    rw [free_occupy] at hs
    exact h.free_lt s hs
  · rw [links_occupy]
    exact Links.all_pushBack h.links_lt hlt

theorem Bounded.evict (slot : Nat) : Bounded n (idx.evict slot).2 := by
  cases hkey : idx.keyAt slot with
  | none =>
    rw [evict_of_free hkey]
    exact h
  | some key =>
    refine ⟨?_, ?_, ?_⟩
    · intro k s hmap
      rw [map_evict hkey, update_apply] at hmap
      split at hmap
      · cases hmap
      · exact h.map_lt k s hmap
    · intro s hs
      rw [free_evict] at hs
      exact h.free_lt s hs
    · rw [links_evict hkey]
      exact Links.all_unlink h.links_lt slot

theorem Bounded.push {slot : Nat} (hlt : slot < n) :
    Bounded n { idx with free := slot :: idx.free } := by
  refine ⟨h.map_lt, ?_, h.links_lt⟩
  intro s hs
  rcases List.mem_cons.mp hs with heq | hmem
  · exact heq ▸ hlt
  · exact h.free_lt s hmem

theorem Bounded.touch (htouch : idx.touch key = some (slot, idx')) :
    Bounded n idx' ∧ slot < n := by
  rcases touch_some htouch with ⟨hmap, rfl⟩
  have hlt := h.map_lt key slot hmap
  refine ⟨⟨?_, ?_, ?_⟩, hlt⟩
  · intro k s hk
    rw [map_pushBack, map_unlinkLinked] at hk
    exact h.map_lt k s hk
  · intro s hs
    rw [free_pushBack, free_unlinkLinked] at hs
    exact h.free_lt s hs
  · rw [links_pushBack, links_unlinkLinked]
    exact Links.all_pushBack (Links.all_unlink h.links_lt slot) hlt

theorem Bounded.forget {slot : Nat} (hlt : slot < n) :
    Bounded n (idx.forget slot) := by
  cases hkey : idx.keyAt slot with
  | none =>
    rw [forget_of_free hkey]
    exact h
  | some key =>
    rw [forget_of_keyed hkey]
    exact (h.evict slot).push hlt

theorem Bounded.remove (key : String) : Bounded n (idx.remove key).2 := by
  rw [remove_eq]
  cases hmap : idx.map key with
  | none => exact h
  | some slot => exact h.forget (h.map_lt key slot hmap)

theorem Bounded.claim (hclaim : idx.claim key header = some (slot, idx')) :
    Bounded n idx' ∧ slot < n := by
  rcases claim_some hclaim with ⟨_, ⟨rest, hfree, rfl⟩ | ⟨_, hhead, rfl⟩⟩
  · have hlt : slot < n := h.free_lt slot (by simp [hfree])
    have hrest : Bounded n { idx with free := rest } := by
      refine ⟨h.map_lt, ?_, h.links_lt⟩
      intro s hs
      apply h.free_lt s
      rw [hfree]
      exact List.mem_cons_of_mem slot hs
    exact ⟨hrest.occupy hlt _ _ _, hlt⟩
  · have hlt : slot < n := h.links_lt.head slot hhead
    exact ⟨(h.evict slot).occupy hlt _ _ _, hlt⟩

end

end Index

end Cache
end Pacer
