import Mathlib.Algebra.Ring.Nat
import Mathlib.Data.List.AList

/-!
# Chunk directory

The home of a chunk key records who holds it: for each holder a tier hint and
the generation of its admission, so that a message that arrives late does not
undo a newer one.  An entry lists at most `maxSharersTracked` holders; past
that it is only marked as widely held.

The order in which a map yields its entries is left to the map.
-/

namespace Pacer
namespace Cluster

inductive Tier where
  | dram
  | nvme
deriving DecidableEq, Repr

structure Holder (node : Type) where
  node : node
  tier : Tier
  generation : Nat
deriving DecidableEq, Repr

structure SharerSet (node : Type) where
  holders : List (Holder node)
  widelyHeld : Bool
deriving DecidableEq, Repr

structure Entry (node : Type) where
  holders : AList (fun _ : node => Tier × Nat)
  widelyHeld : Bool

namespace Entry

def empty : Entry node :=
  { holders := ∅, widelyHeld := false }

variable [DecidableEq node]

def admitHolder (entry : Entry node) (cap : Nat) (n : node) (tier : Tier)
    (generation : Nat) : Entry node :=
  match entry.holders.lookup n with
  | some existing =>
    if existing.2 ≤ generation then
      { entry with holders := entry.holders.insert n (tier, generation) }
    else entry
  | none =>
    if entry.widelyHeld || decide (cap ≤ entry.holders.entries.length) then
      { entry with widelyHeld := true }
    else
      { entry with holders := entry.holders.insert n (tier, generation) }

def evict (entry : Entry node) (n : node) (generation : Nat) : Entry node :=
  match entry.holders.lookup n with
  | some existing =>
    if existing.2 ≤ generation then
      { entry with holders := entry.holders.erase n }
    else entry
  | none => entry

def sharerSet (entry : Entry node) : SharerSet node :=
  { holders := entry.holders.entries.map fun holder =>
      { node := holder.1, tier := holder.2.1, generation := holder.2.2 },
    widelyHeld := entry.widelyHeld }

end Entry

structure Directory (key node : Type) where
  maxSharersTracked : Nat
  entries : AList (fun _ : key => Entry node)

namespace Directory

def new (maxSharersTracked : Nat) : Directory key node :=
  { maxSharersTracked := maxSharersTracked, entries := ∅ }

variable [DecidableEq key]

def entryOf (dir : Directory key node) (chunkKey : key) : Entry node :=
  (dir.entries.lookup chunkKey).getD .empty

def lookup (dir : Directory key node) (chunkKey : key) :
    Option (SharerSet node) :=
  (dir.entries.lookup chunkKey).map Entry.sharerSet

def remove (dir : Directory key node) (chunkKey : key) : Directory key node :=
  { dir with entries := dir.entries.erase chunkKey }

/-!
## Who is listed
-/

def Lists (dir : Directory key node) (chunkKey : key) (n : node) : Prop :=
  exists set, dir.lookup chunkKey = some set ∧
    exists holder, holder ∈ set.holders ∧ holder.node = n

def HasRoom (dir : Directory key node) (chunkKey : key) (n : node) : Prop :=
  dir.Lists chunkKey n ∨
    (dir.entryOf chunkKey).widelyHeld = false ∧
      (dir.entryOf chunkKey).holders.entries.length < dir.maxSharersTracked

variable {dir : Directory key node}

variable {chunkKey other : key} {n : node}

theorem lists_iff :
    dir.Lists chunkKey n <->
      exists entry, dir.entries.lookup chunkKey = some entry ∧
        n ∈ entry.holders := by
  unfold Lists lookup
  constructor
  · rintro ⟨set, hset, holder, hholder, hnode⟩
    rcases Option.map_eq_some_iff.mp hset with ⟨entry, hentry, rfl⟩
    rcases List.mem_map.mp hholder with ⟨stored, hstored, rfl⟩
    refine ⟨entry, hentry, ?_⟩
    rw [← hnode]
    exact List.mem_map_of_mem (f := Sigma.fst) hstored
  · rintro ⟨entry, hentry, hmem⟩
    rcases List.mem_map.mp hmem with ⟨stored, hstored, hnode⟩
    refine ⟨entry.sharerSet, by rw [hentry]; rfl, ?_⟩
    exact ⟨_, List.mem_map_of_mem hstored, hnode⟩

theorem lists_iff_entryOf :
    dir.Lists chunkKey n <-> n ∈ (dir.entryOf chunkKey).holders := by
  rw [lists_iff]
  unfold entryOf
  cases dir.entries.lookup chunkKey with
  | none => simp [Entry.empty]
  | some entry => simp

theorem entryOf_remove_ne (dir : Directory key node) {chunkKey other : key}
    (hne : other ≠ chunkKey) :
    (dir.remove chunkKey).entryOf other = dir.entryOf other := by
  simp [remove, entryOf, AList.lookup_erase_ne hne]

theorem Lists.remove_ne {m : node} (h : dir.Lists other m)
    (hne : other ≠ chunkKey) :
    (dir.remove chunkKey).Lists other m := by
  rw [lists_iff_entryOf] at h ⊢
  rw [entryOf_remove_ne dir hne]
  exact h

/-!
## Admissions
-/

variable [DecidableEq node]

def admitHolder (dir : Directory key node) (chunkKey : key) (n : node)
    (tier : Tier) (generation : Nat) : Directory key node :=
  { dir with
    entries := dir.entries.insert chunkKey
      ((dir.entryOf chunkKey).admitHolder dir.maxSharersTracked n tier
        generation) }

/-- The generation after the one recorded, in 64 bits. -/
def nextGen (dir : Directory key node) (chunkKey : key) (n : node) : Nat :=
  match (dir.entries.lookup chunkKey).bind (·.holders.lookup n) with
  | none => 1
  | some existing => (existing.2 + 1) % 2 ^ 64

def admitNext (dir : Directory key node) (chunkKey : key) (n : node)
    (tier : Tier) : Directory key node :=
  dir.admitHolder chunkKey n tier (dir.nextGen chunkKey n)

/-- Record that a node no longer holds a chunk at an admission generation.  An
entry without holders is dropped unless it is widely held. -/
def evict (dir : Directory key node) (chunkKey : key) (n : node)
    (generation : Nat) : Directory key node :=
  match dir.entries.lookup chunkKey with
  | none => dir
  | some entry =>
    let entry := entry.evict n generation
    if entry.holders.entries.isEmpty && !entry.widelyHeld then
      { dir with entries := dir.entries.erase chunkKey }
    else
      { dir with entries := dir.entries.insert chunkKey entry }

@[simp] theorem entryOf_admitHolder (dir : Directory key node) (chunkKey : key)
    (n : node) (tier : Tier) (generation : Nat) :
    (dir.admitHolder chunkKey n tier generation).entryOf chunkKey =
      (dir.entryOf chunkKey).admitHolder dir.maxSharersTracked n tier
        generation := by
  simp [admitHolder, entryOf]

theorem entryOf_admitHolder_ne (dir : Directory key node) {chunkKey other : key}
    (hne : other ≠ chunkKey) (n : node) (tier : Tier) (generation : Nat) :
    (dir.admitHolder chunkKey n tier generation).entryOf other =
      dir.entryOf other := by
  simp [admitHolder, entryOf, AList.lookup_insert_ne hne]

theorem Entry.mem_admitHolder (entry : Entry node) (cap : Nat) {m n : node}
    (tier : Tier) (generation : Nat) (h : m ∈ entry.holders) :
    m ∈ (entry.admitHolder cap n tier generation).holders := by
  unfold Entry.admitHolder
  split
  · split
    · exact (AList.mem_insert _).mpr (Or.inr h)
    · exact h
  · split
    · exact h
    · exact (AList.mem_insert _).mpr (Or.inr h)

theorem Lists.admitHolder {m n : node} (h : dir.Lists other m) (tier : Tier)
    (generation : Nat) :
    (dir.admitHolder chunkKey n tier generation).Lists other m := by
  rw [lists_iff_entryOf] at h ⊢
  by_cases hkey : other = chunkKey
  · subst hkey
    rw [entryOf_admitHolder]
    exact Entry.mem_admitHolder _ _ tier generation h
  · rw [entryOf_admitHolder_ne dir hkey]
    exact h

theorem Lists.admitNext {m n : node} (h : dir.Lists other m) (tier : Tier) :
    (dir.admitNext chunkKey n tier).Lists other m :=
  h.admitHolder tier _

theorem HasRoom.lists_admitHolder (h : dir.HasRoom chunkKey n) (tier : Tier)
    (generation : Nat) :
    (dir.admitHolder chunkKey n tier generation).Lists chunkKey n := by
  rcases h with hlists | ⟨hheld, hlen⟩
  · exact hlists.admitHolder tier generation
  · rw [lists_iff_entryOf, entryOf_admitHolder]
    unfold Entry.admitHolder
    cases hlookup : (dir.entryOf chunkKey).holders.lookup n with
    | some existing =>
      have hmem : n ∈ (dir.entryOf chunkKey).holders := by
        rw [← AList.lookup_isSome, hlookup]
        rfl
      dsimp only
      split
      · exact (AList.mem_insert _).mpr (Or.inl rfl)
      · exact hmem
    | none =>
      have hfits : ¬ dir.maxSharersTracked ≤
          (dir.entryOf chunkKey).holders.entries.length := by lia
      simp [hheld, hfits]

end Directory

end Cluster
end Pacer
