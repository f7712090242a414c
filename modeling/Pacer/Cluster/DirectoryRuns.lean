import Mathlib.Algebra.Ring.Nat
import Pacer.Cluster.DirectoryOrder

/-!
# Any calls on the directory

What holds of a directory shard after any sequence of calls: its entries stay
bounded, an entry without holders is kept only to say that the chunk is widely
held, a holder is listed with the last of its admissions of the highest
generation since it is listed, and a call on one key leaves the others alone.

Generations are 64-bit words; the one that a self-admission allocates wraps.
-/

namespace Pacer
namespace Cluster

namespace Directory

inductive Op (key node : Type) where
  | admitHolder (chunkKey : key) (n : node) (tier : Tier) (generation : Nat)
  | admitNext (chunkKey : key) (n : node) (tier : Tier)
  | evict (chunkKey : key) (n : node) (generation : Nat)
  | remove (chunkKey : key)
deriving DecidableEq, Repr

def Op.chunkKey : Op key node -> key
  | .admitHolder k _ _ _ => k
  | .admitNext k _ _ => k
  | .evict k _ _ => k
  | .remove k => k

variable {key node : Type} [DecidableEq key] [DecidableEq node]

def holdingsOf (dir : Directory key node) (n : node) :
    List (key × Tier × Nat) :=
  dir.entries.entries.filterMap fun entry =>
    (entry.2.holders.lookup n).map fun held => (entry.1, held.1, held.2)

def apply (dir : Directory key node) : Op key node -> Directory key node
  | .admitHolder k n tier generation => dir.admitHolder k n tier generation
  | .admitNext k n tier => dir.admitNext k n tier
  | .evict k n generation => dir.evict k n generation
  | .remove k => dir.remove k

def applyAll (dir : Directory key node) (ops : List (Op key node)) :
    Directory key node :=
  ops.foldl apply dir

def admission (dir : Directory key node) (chunkKey : key) (n : node) :
    Op key node -> Option (Tier × Nat)
  | .admitHolder k m tier generation =>
    if k = chunkKey ∧ m = n then some (tier, generation) else none
  | .admitNext k m tier =>
    if k = chunkKey ∧ m = n then some (tier, dir.nextGen k m) else none
  | _ => none

def admissions (chunkKey : key) (n : node) :
    Directory key node -> List (Op key node) -> List (Tier × Nat)
  | _, [] => []
  | dir, op :: ops =>
    (dir.admission chunkKey n op).toList ++
      admissions chunkKey n (dir.apply op) ops

/-!
## Entries
-/

structure EntrySound (cap : Nat) (entry : Entry node) : Prop where
  bounded : entry.holders.entries.length ≤ cap
  counted : entry.holders.entries = [] -> entry.widelyHeld = true

variable {dir : Directory key node} {held : Tier × Nat} {chunkKey : key}
  {n : node}

theorem length_insert_of_mem {holders : AList fun _ : node => Tier × Nat}
    (hmem : n ∈ holders) (held : Tier × Nat) :
    (holders.insert n held).entries.length = holders.entries.length := by
  have hkeys : (holders.insert n held).keys.length =
      (n :: holders.keys.erase n).length :=
    congrArg List.length (AList.keys_insert holders)
  have hpos : 0 < holders.keys.length := List.length_pos_of_mem hmem
  rw [List.length_cons, List.length_erase_of_mem hmem] at hkeys
  unfold AList.keys List.keys at hkeys hpos
  rw [List.length_map, List.length_map] at hkeys
  rw [List.length_map] at hpos
  lia

variable {entry : Entry node} {op : Op key node} {chunkKey k : key}

theorem entrySound_admitHolder {cap : Nat}
    (hbounded : entry.holders.entries.length ≤ cap) (n : node) (tier : Tier)
    (generation : Nat) :
    EntrySound cap (entry.admitHolder cap n tier generation) := by
  unfold Entry.admitHolder
  cases hheld : entry.holders.lookup n with
  | some existing =>
    have hmem : n ∈ entry.holders := by
      rw [← AList.lookup_isSome, hheld]
      rfl
    dsimp only
    split
    · constructor
      · rw [length_insert_of_mem hmem]
        exact hbounded
      · intro hnil
        rw [AList.entries_insert] at hnil
        cases hnil
    · refine ⟨hbounded, ?_⟩
      intro hnil
      unfold AList.lookup at hheld
      rw [hnil] at hheld
      cases hheld
  | none =>
    dsimp only
    split
    · exact ⟨hbounded, fun _ => rfl⟩
    · rename_i hroom
      rw [Bool.or_eq_true, decide_eq_true_iff] at hroom
      constructor
      · rw [AList.entries_insert_of_notMem (AList.lookup_eq_none.mp hheld),
          List.length_cons]
        lia
      · intro hnil
        rw [AList.entries_insert] at hnil
        cases hnil

theorem length_evict_le (entry : Entry node) (n : node) (generation : Nat) :
    (entry.evict n generation).holders.entries.length ≤
      entry.holders.entries.length := by
  unfold Entry.evict
  split
  · split
    · exact (List.kerase_sublist n entry.holders.entries).length_le
    · exact Nat.le_refl _
  · exact Nat.le_refl _

theorem widelyHeld_evict (entry : Entry node) (n : node) (generation : Nat) :
    (entry.evict n generation).widelyHeld = entry.widelyHeld := by
  unfold Entry.evict
  split
  · split
    · rfl
    · rfl
  · rfl

theorem widelyHeld_admitHolder (h : entry.widelyHeld = true) (cap : Nat)
    (n : node) (tier : Tier) (generation : Nat) :
    (entry.admitHolder cap n tier generation).widelyHeld = true := by
  unfold Entry.admitHolder
  split
  · split
    · exact h
    · exact h
  · rw [h]
    rfl

/-!
## What a call does to an entry
-/

theorem lookup_apply_ne (dir : Directory key node) {op : Op key node}
    {chunkKey : key} (hne : chunkKey ≠ op.chunkKey) :
    (dir.apply op).entries.lookup chunkKey = dir.entries.lookup chunkKey := by
  cases op with
  | admitHolder k n tier generation | admitNext k n tier =>
    exact AList.lookup_insert_ne hne
  | evict k n generation =>
    change (dir.evict k n generation).entries.lookup chunkKey = _
    unfold evict
    split
    · rfl
    · dsimp only
      split
      · exact AList.lookup_erase_ne hne
      · exact AList.lookup_insert_ne hne
  | remove k => exact AList.lookup_erase_ne hne

theorem lookup_admitHolder (dir : Directory key node) (chunkKey : key)
    (n : node) (tier : Tier) (generation : Nat) :
    (dir.admitHolder chunkKey n tier generation).entries.lookup chunkKey =
      some ((dir.entryOf chunkKey).admitHolder dir.maxSharersTracked n tier
        generation) :=
  AList.lookup_insert _

theorem lookup_evict (dir : Directory key node) (chunkKey : key) (n : node)
    (generation : Nat) :
    (dir.evict chunkKey n generation).entries.lookup chunkKey =
      ((dir.entries.lookup chunkKey).map (·.evict n generation)).filter
        fun entry => !(entry.holders.entries.isEmpty && !entry.widelyHeld) := by
  unfold evict
  cases hentry : dir.entries.lookup chunkKey with
  | none => exact hentry
  | some entry =>
    dsimp only
    rw [Option.map_some]
    split
    · rename_i hdropped
      rw [Option.filter_some_neg (by rw [hdropped]; decide)]
      exact AList.lookup_erase _ _
    · rename_i hkept
      rw [Option.filter_some_pos (by rw [Bool.eq_false_iff.mpr hkept]; rfl)]
      exact AList.lookup_insert _

theorem maxSharersTracked_apply (dir : Directory key node) (op : Op key node) :
    (dir.apply op).maxSharersTracked = dir.maxSharersTracked := by
  cases op with
  | admitHolder k n tier generation => rfl
  | admitNext k n tier => rfl
  | evict k n generation =>
    change (dir.evict k n generation).maxSharersTracked = _
    unfold evict
    split
    · rfl
    · dsimp only
      split
      · rfl
      · rfl
  | remove k => rfl

/-!
## Entries stay bounded
-/

def Sound (dir : Directory key node) : Prop :=
  forall chunkKey entry, dir.entries.lookup chunkKey = some entry ->
    EntrySound dir.maxSharersTracked entry

omit [DecidableEq node] in
theorem Sound.length_entryOf (h : dir.Sound) (chunkKey : key) :
    (dir.entryOf chunkKey).holders.entries.length ≤ dir.maxSharersTracked := by
  unfold entryOf
  cases hentry : dir.entries.lookup chunkKey with
  | none => exact Nat.zero_le _
  | some entry => exact (h chunkKey entry hentry).bounded

variable {generation : Nat}

theorem Sound.admitHolder (h : dir.Sound) {chunkKey : key} {n : node}
    {tier : Tier} {entry : Entry node}
    (hentry : (dir.admitHolder chunkKey n tier generation).entries.lookup
      chunkKey = some entry) :
    EntrySound dir.maxSharersTracked entry := by
  rw [lookup_admitHolder] at hentry
  rw [← Option.some.inj hentry]
  exact entrySound_admitHolder (h.length_entryOf chunkKey) n tier generation

theorem Sound.apply (h : dir.Sound) (op : Op key node)
    : (dir.apply op).Sound := by
  intro chunkKey entry hentry
  rw [maxSharersTracked_apply]
  by_cases hkey : chunkKey = op.chunkKey
  · cases op with
    | admitHolder k n tier generation | admitNext k n tier =>
      rw [hkey] at hentry
      exact h.admitHolder hentry
    | evict k n generation =>
      rw [hkey] at hentry
      change (dir.evict k n generation).entries.lookup k = _ at hentry
      rw [lookup_evict] at hentry
      rcases Option.filter_eq_some_iff.mp hentry with ⟨hsome, hkept⟩
      rcases Option.map_eq_some_iff.mp hsome with ⟨before, hbefore, hevict⟩
      constructor
      · rw [← hevict]
        exact Nat.le_trans (length_evict_le before n generation)
          (h k before hbefore).bounded
      · intro hnil
        rw [hnil] at hkept
        simpa using hkept
    | remove k =>
      rw [hkey] at hentry
      change (dir.entries.erase k).lookup k = _ at hentry
      rw [AList.lookup_erase] at hentry
      cases hentry
  · rw [lookup_apply_ne dir hkey] at hentry
    exact h chunkKey entry hentry

theorem Sound.applyAll (h : dir.Sound) (ops : List (Op key node))
    : (dir.applyAll ops).Sound := by
  induction ops generalizing dir with
  | nil => exact h
  | cons op ops ih => exact ih (h.apply op)

omit [DecidableEq node] in
theorem sound_new (cap : Nat) : (new cap : Directory key node).Sound := by
  intro chunkKey entry hentry
  cases hentry

theorem maxSharersTracked_applyAll (dir : Directory key node)
    (ops : List (Op key node)) :
    (dir.applyAll ops).maxSharersTracked = dir.maxSharersTracked := by
  induction ops generalizing dir with
  | nil => rfl
  | cons op ops ih => exact (ih (dir.apply op)).trans (maxSharersTracked_apply dir op)

theorem widelyHeld_apply (hentry : dir.entries.lookup chunkKey = some entry)
    (hheld : entry.widelyHeld = true) (hop : op ≠ .remove chunkKey) :
    exists after, (dir.apply op).entries.lookup chunkKey = some after ∧
      after.widelyHeld = true := by
  have hof : (dir.entryOf chunkKey).widelyHeld = true := by
    unfold entryOf
    rw [hentry]
    exact hheld
  by_cases hkey : chunkKey = op.chunkKey
  · cases op with
    | admitHolder k n tier generation =>
      cases hkey
      exact ⟨_, lookup_admitHolder dir _ n tier generation,
        widelyHeld_admitHolder hof _ n tier generation⟩
    | admitNext k n tier =>
      cases hkey
      exact ⟨_, lookup_admitHolder dir _ n tier _,
        widelyHeld_admitHolder hof _ n tier _⟩
    | evict k n generation =>
      cases hkey
      have hafter : (entry.evict n generation).widelyHeld = true := by
        rw [widelyHeld_evict]
        exact hheld
      refine ⟨entry.evict n generation, ?_, hafter⟩
      change (dir.evict k n generation).entries.lookup k = _
      change dir.entries.lookup k = _ at hentry
      rw [lookup_evict, hentry, Option.map_some, Option.filter_some_pos]
      rw [hafter]
      simp
    | remove k =>
      cases hkey
      exact absurd rfl hop
  · rw [lookup_apply_ne dir hkey]
    exact ⟨entry, hentry, hheld⟩

/-!
## How a holder is listed
-/

theorem listed_admitHolder {n m : node} {tier : Tier}
    (h : (dir.admitHolder k m tier generation).listed chunkKey n = some held) :
    ¬ (k = chunkKey ∧ m = n) ∧ dir.listed chunkKey n = some held ∨
      (k = chunkKey ∧ m = n) ∧
        (dir.listed chunkKey n = none ∧ held = (tier, generation) ∨
          exists before, dir.listed chunkKey n = some before ∧
            (before.2 ≤ generation ∧ held = (tier, generation) ∨
              generation < before.2 ∧ held = before)) := by
  by_cases hsame : k = chunkKey ∧ m = n
  · right
    refine ⟨hsame, ?_⟩
    rcases hsame with ⟨rfl, rfl⟩
    rw [listed_eq, entryOf_admitHolder] at h
    rw [listed_eq]
    unfold Entry.admitHolder at h
    cases hbefore : (dir.entryOf k).holders.lookup m with
    | none =>
      rw [hbefore] at h
      dsimp only at h
      split at h
      · change (dir.entryOf k).holders.lookup m = _ at h
        rw [hbefore] at h
        cases h
      change ((dir.entryOf k).holders.insert m _).lookup m = _ at h
      rw [AList.lookup_insert] at h
      exact Or.inl ⟨rfl, (Option.some.inj h).symm⟩
    | some before =>
      rw [hbefore] at h
      dsimp only at h
      right
      refine ⟨before, rfl, ?_⟩
      split at h
      · rename_i hle
        rw [AList.lookup_insert] at h
        exact Or.inl ⟨hle, (Option.some.inj h).symm⟩
      · rename_i hlt
        rw [hbefore] at h
        exact Or.inr ⟨Nat.not_le.mp hlt, (Option.some.inj h).symm⟩
  · have hother : (dir.announce ⟨k, m, .admitted tier generation⟩).listed
        chunkKey n = dir.listed chunkKey n := listed_announce_other hsame
    exact Or.inl ⟨hsame, hother.symm.trans h⟩

theorem listed_evict {n m : node}
    (h : (dir.evict k m generation).listed chunkKey n = some held) :
    dir.listed chunkKey n = some held := by
  by_cases hsame : k = chunkKey ∧ m = n
  · rcases hsame with ⟨rfl, rfl⟩
    rw [listed_eq, lookup_entryOf_evict] at h
    rw [listed_eq]
    unfold Entry.evict at h
    split at h
    · split at h
      · rw [AList.lookup_erase] at h
        cases h
      · exact h
    · exact h
  · have hother : (dir.announce ⟨k, m, .evicted generation⟩).listed chunkKey n =
        dir.listed chunkKey n := listed_announce_other hsame
    exact hother.symm.trans h

theorem listed_remove (h : (dir.remove k).listed chunkKey n = some held) :
    dir.listed chunkKey n = some held := by
  unfold listed lookup remove at h
  by_cases hkey : chunkKey = k
  · rw [hkey, AList.lookup_erase] at h
    cases h
  · rw [AList.lookup_erase_ne hkey] at h
    exact h

/-- What a call leaves of how a holder is listed: what was there, unless the call
is an admission of the holder that is not older. -/
theorem listed_apply (h : (dir.apply op).listed chunkKey n = some held) :
    dir.admission chunkKey n op = none ∧ dir.listed chunkKey n = some held ∨
      exists admitted, dir.admission chunkKey n op = some admitted ∧
        (dir.listed chunkKey n = none ∧ held = admitted ∨
          exists before, dir.listed chunkKey n = some before ∧
            (before.2 ≤ admitted.2 ∧ held = admitted ∨
              admitted.2 < before.2 ∧ held = before)) := by
  cases op with
  | admitHolder k m tier generation | admitNext k m tier =>
    rcases listed_admitHolder h with ⟨hother, hsame⟩ | ⟨hsame, hcases⟩
    · exact Or.inl ⟨if_neg hother, hsame⟩
    · exact Or.inr ⟨_, if_pos hsame, hcases⟩
  | evict k m generation => exact Or.inl ⟨rfl, listed_evict h⟩
  | remove k => exact Or.inl ⟨rfl, listed_remove h⟩

theorem generation_le_apply {before after : Tier × Nat}
    (hbefore : dir.listed chunkKey n = some before)
    (hafter : (dir.apply op).listed chunkKey n = some after) :
    before.2 ≤ after.2 := by
  rcases listed_apply hafter with ⟨_, hsame⟩ | ⟨admitted, _, ⟨hnone, _⟩ |
    ⟨other, hother, ⟨hle, heq⟩ | ⟨_, heq⟩⟩⟩
  · rw [hbefore] at hsame
    rw [Option.some.inj hsame]
  · rw [hbefore] at hnone
    cases hnone
  · rw [hbefore] at hother
    rw [heq, Option.some.inj hother]
    exact hle
  · rw [hbefore] at hother
    rw [heq, Option.some.inj hother]

def ListedThrough (dir : Directory key node) (chunkKey : key) (n : node)
    (ops : List (Op key node)) : Prop :=
  forall front back, ops = front ++ back -> front ≠ [] ->
    ((dir.applyAll front).listed chunkKey n).isSome

def Newest (held : Tier × Nat) (heard : List (Tier × Nat)) : Prop :=
  exists front back, heard = front ++ held :: back ∧
    (forall a, a ∈ front -> a.2 ≤ held.2) ∧ forall a, a ∈ back -> a.2 < held.2

theorem Newest.concat_older {heard : List (Tier × Nat)} (h : Newest held heard)
    {a : Tier × Nat} (ha : a.2 < held.2) :
    Newest held (heard ++ [a]) := by
  rcases h with ⟨front, back, hheard, hfront, hback⟩
  refine ⟨front, back ++ [a], ?_, hfront, ?_⟩
  · rw [hheard, List.append_assoc, List.cons_append]
  · intro other hother
    rcases List.mem_append.mp hother with hmem | hlast
    · exact hback other hmem
    · rw [List.mem_singleton.mp hlast]
      exact ha

theorem Newest.concat_newer {heard : List (Tier × Nat)} (h : Newest held heard)
    {a : Tier × Nat} (ha : held.2 ≤ a.2) :
    Newest a (heard ++ [a]) := by
  rcases h with ⟨front, back, hheard, hfront, hback⟩
  refine ⟨heard, [], rfl, ?_, ?_⟩
  · intro other hother
    rw [hheard] at hother
    rcases List.mem_append.mp hother with hmem | hmem
    · exact Nat.le_trans (hfront other hmem) ha
    · rcases List.mem_cons.mp hmem with heq | hmem
      · rw [heq]
        exact ha
      · exact Nat.le_trans (Nat.le_of_lt (hback other hmem)) ha
  · intro other hother
    cases hother

theorem applyAll_append (dir : Directory key node)
    (front back : List (Op key node)) :
    dir.applyAll (front ++ back) = (dir.applyAll front).applyAll back :=
  List.foldl_append

theorem applyAll_concat (dir : Directory key node) (ops : List (Op key node))
    (op : Op key node) :
    dir.applyAll (ops ++ [op]) = (dir.applyAll ops).apply op :=
  applyAll_append dir ops [op]

theorem admissions_concat (dir : Directory key node) (chunkKey : key) (n : node)
    (ops : List (Op key node)) (op : Op key node) :
    admissions chunkKey n dir (ops ++ [op]) =
      admissions chunkKey n dir ops ++
        ((dir.applyAll ops).admission chunkKey n op).toList := by
  induction ops generalizing dir with
  | nil => exact List.append_nil _
  | cons first ops ih =>
    change (dir.admission chunkKey n first).toList ++
      admissions chunkKey n (dir.apply first) (ops ++ [op]) = _
    rw [ih, ← List.append_assoc]
    rfl

theorem listedThrough_nil (dir : Directory key node) (chunkKey : key)
    (n : node) : dir.ListedThrough chunkKey n [] := by
  intro front back hsplit hfront
  exact absurd (List.append_eq_nil_iff.mp hsplit.symm).left hfront

theorem ListedThrough.concat {ops : List (Op key node)}
    (h : dir.ListedThrough chunkKey n ops) {op : Op key node}
    (hop : (((dir.applyAll ops).apply op).listed chunkKey n).isSome) :
    dir.ListedThrough chunkKey n (ops ++ [op]) := by
  intro front back hsplit hfront
  rcases List.prefix_concat_iff.mp ⟨back, hsplit.symm⟩ with
    rfl | ⟨back', hfront'⟩
  · rw [applyAll_concat]
    exact hop
  · exact h front back' hfront'.symm hfront

theorem newest_of_listed (hfresh : dir.listed chunkKey n = none)
    {ops : List (Op key node)} {held : Tier × Nat}
    (h : (dir.applyAll ops).listed chunkKey n = some held) :
    exists before since, ops = before ++ since ∧
      (dir.applyAll before).listed chunkKey n = none ∧
      (dir.applyAll before).ListedThrough chunkKey n since ∧
      Newest held (admissions chunkKey n (dir.applyAll before) since) := by
  -- The last call either lists the holder, or finds it listed.
  induction ops using List.reverseRecOn generalizing held with
  | nil =>
    change dir.listed chunkKey n = some held at h
    rw [hfresh] at h
    cases h
  | append_singleton ops op ih =>
    rw [applyAll_concat] at h
    have hsome : (((dir.applyAll ops).apply op).listed chunkKey n).isSome := by
      rw [h]
      rfl
    cases hbefore : (dir.applyAll ops).listed chunkKey n with
    | none =>
      refine ⟨ops, [op], rfl, hbefore,
        (listedThrough_nil _ chunkKey n).concat hsome, ?_⟩
      rcases listed_apply h with ⟨_, hsame⟩ | ⟨admitted, hop,
        ⟨_, heq⟩ | ⟨earlier, hearlier, _⟩⟩
      · rw [hbefore] at hsame
        cases hsame
      · refine ⟨[], [], ?_, ?_, ?_⟩
        · unfold admissions
          rw [hop, heq]
          rfl
        · intro a ha
          cases ha
        · intro a ha
          cases ha
      · rw [hbefore] at hearlier
        cases hearlier
    | some earlier =>
      rcases ih hbefore with
        ⟨before, since, hops, hfresh', hthrough, hnewest⟩
      have hstate : (dir.applyAll before).applyAll since =
          dir.applyAll ops := by
        rw [hops, applyAll_append]
      refine ⟨before, since ++ [op], ?_, hfresh', hthrough.concat ?_, ?_⟩
      · rw [hops, List.append_assoc]
      · rw [hstate]
        exact hsome
      · rw [admissions_concat, hstate]
        rcases listed_apply h with ⟨hnone, hsame⟩ | ⟨admitted, hop,
          ⟨hnone, _⟩ | ⟨other, hother, ⟨hle, heq⟩ | ⟨hlt, heq⟩⟩⟩
        · rw [hbefore] at hsame
          rw [hnone, ← Option.some.inj hsame, Option.toList_none,
            List.append_nil]
          exact hnewest
        · rw [hbefore] at hnone
          cases hnone
        · rw [hbefore] at hother
          rw [← Option.some.inj hother] at hle
          rw [hop, heq]
          exact hnewest.concat_newer hle
        · rw [hbefore] at hother
          rw [← Option.some.inj hother] at hlt heq
          rw [hop, heq]
          exact hnewest.concat_older hlt

/-!
## Holdings
-/

theorem mem_holdingsOf (dir : Directory key node) (n : node) (chunkKey : key)
    (held : Tier × Nat) :
    (chunkKey, held) ∈ dir.holdingsOf n <->
      dir.listed chunkKey n = some held := by
  unfold holdingsOf
  rw [List.mem_filterMap, listed_eq]
  unfold entryOf
  constructor
  · rintro ⟨entry, hentry, hheld⟩
    rcases Option.map_eq_some_iff.mp hheld with ⟨found, hfound, heq⟩
    have hlookup : dir.entries.lookup entry.1 = some entry.2 :=
      AList.mem_lookup_iff.mpr hentry
    rw [← (Prod.mk.inj heq).left, hlookup, ← (Prod.mk.inj heq).right]
    exact hfound
  · intro hheld
    cases hlookup : dir.entries.lookup chunkKey with
    | none =>
      rw [hlookup] at hheld
      cases hheld
    | some entry =>
      rw [hlookup] at hheld
      refine ⟨⟨chunkKey, entry⟩, AList.mem_lookup_iff.mp hlookup, ?_⟩
      change (entry.holders.lookup n).map _ = _
      change entry.holders.lookup n = _ at hheld
      rw [hheld]
      rfl

omit [DecidableEq key] in
theorem nodup_holdingsOf (dir : Directory key node) (n : node) :
    ((dir.holdingsOf n).map Prod.fst).Nodup := by
  unfold holdingsOf
  rw [List.map_filterMap]
  have hkeys : dir.entries.entries.Pairwise fun a b => a.1 ≠ b.1 :=
    List.pairwise_map.mp dir.entries.nodupKeys
  apply List.Pairwise.filterMap _ _ hkeys
  intro a b hne x hx y hy
  rcases Option.map_eq_some_iff.mp hx with ⟨x', hx', rfl⟩
  rcases Option.map_eq_some_iff.mp hx' with ⟨_, _, rfl⟩
  rcases Option.map_eq_some_iff.mp hy with ⟨y', hy', rfl⟩
  rcases Option.map_eq_some_iff.mp hy' with ⟨_, _, rfl⟩
  exact hne

/-!
## Every sequence of calls
-/

omit [DecidableEq node] in
theorem lookup_eq_some {set : SharerSet node}
    (h : dir.lookup chunkKey = some set) :
    exists entry, dir.entries.lookup chunkKey = some entry ∧
      set = entry.sharerSet := by
  rcases Option.map_eq_some_iff.mp h with ⟨entry, hentry, hset⟩
  exact ⟨entry, hentry, hset.symm⟩

omit [DecidableEq node] in
theorem nodup_sharers (entry : Entry node) :
    (entry.sharerSet.holders.map Holder.node).Nodup := by
  unfold Entry.sharerSet
  rw [List.map_map]
  exact entry.holders.nodupKeys

/-- After any calls the entries are bounded and their holders distinct, an empty
one is widely held; the mark stays until a removal, a generation does not fall
while its holder stays listed, the listed admission is the newest since then, the
holdings are what the lookups say, and a call touches one key. -/
theorem bounded_and_honest (cap : Nat) (ops : List (Op key node)) :
    let dir := (new cap : Directory key node).applyAll ops
    (forall chunkKey set, dir.lookup chunkKey = some set ->
      set.holders.length ≤ cap ∧ (set.holders.map Holder.node).Nodup ∧
        (set.holders = [] -> set.widelyHeld = true)) ∧
    (forall op chunkKey set, dir.lookup chunkKey = some set ->
      set.widelyHeld = true -> op ≠ .remove chunkKey ->
      exists after, (dir.apply op).lookup chunkKey = some after ∧
        after.widelyHeld = true) ∧
    (forall op chunkKey n before after,
      dir.listed chunkKey n = some before ->
      (dir.apply op).listed chunkKey n = some after -> before.2 ≤ after.2) ∧
    (forall chunkKey n held, dir.listed chunkKey n = some held ->
      exists before since, ops = before ++ since ∧
        ((new cap).applyAll before).listed chunkKey n = none ∧
        ((new cap).applyAll before).ListedThrough chunkKey n since ∧
        Newest held
          (admissions chunkKey n ((new cap).applyAll before) since)) ∧
    (forall n, ((dir.holdingsOf n).map Prod.fst).Nodup ∧
      forall chunkKey held, (chunkKey, held) ∈ dir.holdingsOf n <->
        dir.listed chunkKey n = some held) ∧
    forall op chunkKey, chunkKey ≠ op.chunkKey ->
      (dir.apply op).lookup chunkKey = dir.lookup chunkKey := by
  intro dir
  have hsound : dir.Sound := (sound_new cap).applyAll ops
  have hcap : dir.maxSharersTracked = cap := maxSharersTracked_applyAll _ ops
  refine ⟨?_, ?_, ?_, ?_, ?_, ?_⟩
  · intro chunkKey set hset
    rcases lookup_eq_some hset with ⟨entry, hentry, rfl⟩
    have hentrySound := hsound chunkKey entry hentry
    refine ⟨?_, nodup_sharers entry, ?_⟩
    · rw [← hcap]
      unfold Entry.sharerSet
      rw [List.length_map]
      exact hentrySound.bounded
    · intro hnil
      exact hentrySound.counted (List.map_eq_nil_iff.mp hnil)
  · intro op chunkKey set hset hheld hop
    rcases lookup_eq_some hset with ⟨entry, hentry, rfl⟩
    rcases widelyHeld_apply hentry hheld hop with ⟨after, hafter, hstill⟩
    refine ⟨after.sharerSet, ?_, hstill⟩
    unfold lookup
    rw [hafter]
    rfl
  · intro op chunkKey n before after
    exact generation_le_apply
  · intro chunkKey n held hheld
    exact newest_of_listed rfl hheld
  · intro n
    exact ⟨nodup_holdingsOf dir n, mem_holdingsOf dir n⟩
  · intro op chunkKey hne
    unfold lookup
    rw [lookup_apply_ne dir hne]

end Directory

end Cluster
end Pacer
