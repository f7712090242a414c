import Mathlib.Data.List.Nodup

/-!
# Recency lists

The ideal least-recently-used cache: at most `capacity` entries, each key once,
the least recently used entry first.  A lookup that hits moves its entry to the
back; an insertion of a key that is held changes nothing, and one that finds
the list full drops the entry in front.

The operations are described by what they do to a list split at the entry they
touch, which is how a concrete cache is compared with them.
-/

namespace Pacer
namespace Foundation

structure Recency (key value : Type) (capacity : Nat) where
  entries : List (key × value)
  nodup : (entries.map Prod.fst).Nodup
  bounded : entries.length ≤ capacity
  roomy : 0 < capacity

namespace Recency

variable {key value : Type} [DecidableEq key] {capacity : Nat}

def empty (roomy : 0 < capacity) : Recency key value capacity :=
  { entries := [],
    nodup := List.nodup_nil,
    bounded := Nat.zero_le capacity,
    roomy := roomy }

def lookup (r : Recency key value capacity) (k : key) : Option value :=
  r.entries.lookup k

def others (entries : List (key × value)) (k : key) : List (key × value) :=
  entries.filter fun entry => entry.1 ≠ k

theorem others_sublist (entries : List (key × value)) (k : key) :
    (others entries k).Sublist entries :=
  List.filter_sublist

theorem not_mem_keys_others (entries : List (key × value)) (k : key) :
    k ∉ (others entries k).map Prod.fst := by
  simp [others]

variable {entries : List (key × value)} {k : key}

omit [DecidableEq key] in
theorem nodup_snoc (h : (entries.map Prod.fst).Nodup)
    (hk : k ∉ entries.map Prod.fst) (v : value)
    : ((entries ++ [(k, v)]).map Prod.fst).Nodup := by
  rw [List.map_append, List.nodup_append]
  refine ⟨h, List.nodup_singleton k, ?_⟩
  intro a ha b hb heq
  rw [List.map_singleton, List.mem_singleton] at hb
  subst heq hb
  exact hk ha

def erase (r : Recency key value capacity) (k : key) :
    Recency key value capacity :=
  { r with
    entries := others r.entries k,
    nodup := r.nodup.sublist ((others_sublist r.entries k).map Prod.fst),
    bounded := Nat.le_trans (others_sublist r.entries k).length_le r.bounded }

theorem length_others_lt {v : value} (h : entries.lookup k = some v) :
    (others entries k).length < entries.length := by
  rcases List.lookup_eq_some_iff.mp h with ⟨front, back, hsplit, _⟩
  apply List.length_filter_lt_length_iff_exists.mpr
  exact ⟨(k, v), by simp [hsplit], by simp⟩

def touch (r : Recency key value capacity) (k : key) :
    Recency key value capacity :=
  match h : r.entries.lookup k with
  | none => r
  | some v =>
    { r with
      entries := others r.entries k ++ [(k, v)],
      nodup := nodup_snoc (r.erase k).nodup (not_mem_keys_others _ k) v,
      bounded := by
        have hlt := length_others_lt h
        have hle := r.bounded
        rw [List.length_append, List.length_singleton]
        lia }

theorem not_mem_keys_of_lookup (h : entries.lookup k = none)
    : k ∉ entries.map Prod.fst := by
  intro hmem
  rcases List.mem_map.mp hmem with ⟨entry, hentry, hk⟩
  have hne := List.lookup_eq_none_iff.mp h entry hentry
  simp [hk] at hne

/-- Add an entry unless its key is held.  A full list drops its least recently
used entry first. -/
def insert (r : Recency key value capacity) (k : key) (v : value) :
    Recency key value capacity :=
  match h : r.entries.lookup k with
  | some _ => r
  | none =>
    if hroom : r.entries.length < capacity then
      { r with
        entries := r.entries ++ [(k, v)],
        nodup := nodup_snoc r.nodup (not_mem_keys_of_lookup h) v,
        bounded := by
          rw [List.length_append, List.length_singleton]
          lia }
    else
      { r with
        entries := r.entries.tail ++ [(k, v)],
        nodup := by
          have htail := (List.tail_sublist r.entries).map Prod.fst
          apply nodup_snoc (r.nodup.sublist htail)
          intro hmem
          exact not_mem_keys_of_lookup h (htail.subset hmem)
        bounded := by
          have hle := r.bounded
          have hpos := r.roomy
          rw [List.length_append, List.length_tail, List.length_singleton]
          lia }

/-!
## Where a held key is
-/

variable {r : Recency key value capacity} {k : key} {v : value}
  {front back : List (key × value)}

theorem lookup_eq_some_iff :
    r.lookup k = some v <-> (k, v) ∈ r.entries := by
  constructor
  · intro h
    rcases List.lookup_eq_some_iff.mp h with ⟨front, back, hsplit, _⟩
    simp [hsplit]
  · intro hmem
    rcases List.append_of_mem hmem with ⟨front, back, hsplit⟩
    apply List.lookup_eq_some_iff.mpr
    refine ⟨front, back, hsplit, ?_⟩
    intro entry hentry
    have hnodup := r.nodup
    rw [hsplit, List.map_append, List.nodup_append] at hnodup
    have hne := hnodup.2.2 entry.1 (List.mem_map_of_mem hentry) k (by simp)
    simpa using Ne.symm hne

theorem lookup_of_split (h : r.entries = front ++ (k, v) :: back) :
    r.lookup k = some v := by
  rw [lookup_eq_some_iff, h]
  simp

theorem others_of_not_mem (h : k ∉ entries.map Prod.fst)
    : others entries k = entries := by
  apply List.filter_eq_self.mpr
  intro entry hentry
  simp only [ne_eq, decide_not, Bool.not_eq_eq_eq_not, Bool.not_true,
    decide_eq_false_iff_not]
  intro hk
  exact h (hk ▸ List.mem_map_of_mem hentry)

theorem others_of_split (h : r.entries = front ++ (k, v) :: back) :
    others r.entries k = front ++ back := by
  have hnodup := r.nodup
  rw [h, List.map_append, List.map_cons, List.nodup_append,
    List.nodup_cons] at hnodup
  have hfront : k ∉ front.map Prod.fst :=
    fun hmem => hnodup.2.2 k hmem k List.mem_cons_self rfl
  have hself := others_of_not_mem hfront
  have hrest := others_of_not_mem hnodup.2.1.1
  unfold others at hself hrest ⊢
  rw [h, List.filter_append, List.filter_cons_of_neg (by simp), hself, hrest]

/-!
## What the operations do
-/

theorem entries_erase_of_split (h : r.entries = front ++ (k, v) :: back) :
    (r.erase k).entries = front ++ back :=
  others_of_split h

theorem erase_of_absent (h : r.lookup k = none) : r.erase k = r := by
  cases r
  simp only [erase, mk.injEq]
  exact others_of_not_mem (not_mem_keys_of_lookup h)

theorem entries_touch_of_split (h : r.entries = front ++ (k, v) :: back) :
    (r.touch k).entries = front ++ back ++ [(k, v)] := by
  have hlookup : r.entries.lookup k = some v := lookup_of_split h
  unfold touch
  split
  · rename_i hnone
    rw [hlookup] at hnone
    cases hnone
  rename_i found hfound
  rw [hlookup] at hfound
  cases hfound
  show others r.entries k ++ [(k, v)] = front ++ back ++ [(k, v)]
  rw [others_of_split h]

theorem touch_of_absent (h : r.lookup k = none) : r.touch k = r := by
  unfold touch
  split
  · rfl
  · rename_i found hfound
    unfold lookup at h
    rw [h] at hfound
    cases hfound

theorem insert_of_held {held : value} (h : r.lookup k = some held) :
    r.insert k v = r := by
  unfold insert
  split
  · rfl
  · rename_i hnone
    unfold lookup at h
    rw [h] at hnone
    cases hnone

theorem entries_insert (h : r.lookup k = none) :
    (r.insert k v).entries =
      if r.entries.length < capacity then r.entries ++ [(k, v)]
      else r.entries.tail ++ [(k, v)] := by
  unfold insert
  split
  · rename_i found hfound
    unfold lookup at h
    rw [h] at hfound
    cases hfound
  · split
    · rfl
    · rfl

/-!
## What is held afterwards
-/

variable (r : Recency key value capacity)

theorem lookup_erase (k k' : key) :
    (r.erase k).lookup k' = if k' = k then none else r.lookup k' := by
  apply Option.ext
  intro v
  rw [lookup_eq_some_iff]
  show (k', v) ∈ others r.entries k <-> _
  by_cases hk : k' = k
  · simp [others, hk]
  · simp [others, hk, lookup_eq_some_iff]

theorem lookup_touch (k k' : key) :
    (r.touch k).lookup k' = r.lookup k' := by
  cases hheld : r.lookup k with
  | none => rw [touch_of_absent hheld]
  | some held =>
    rcases List.append_of_mem (lookup_eq_some_iff.mp hheld) with
      ⟨front, back, hsplit⟩
    apply Option.ext
    intro v
    rw [lookup_eq_some_iff, lookup_eq_some_iff,
      entries_touch_of_split hsplit, hsplit]
    simp only [List.mem_append, List.mem_cons, List.not_mem_nil, or_false]
    tauto

theorem lookup_insert_of_room (k : key) (v : value)
    (hroom : r.lookup k = none -> r.entries.length < capacity) (k' : key) :
    (r.insert k v).lookup k' =
      if k' = k then some ((r.lookup k).getD v) else r.lookup k' := by
  cases hheld : r.lookup k with
  | some held =>
    rw [insert_of_held hheld]
    split
    · rename_i hk
      rw [hk, hheld]
      rfl
    · rfl
  | none =>
    apply Option.ext
    intro v'
    rw [lookup_eq_some_iff, entries_insert hheld, if_pos (hroom hheld)]
    have habsent := not_mem_keys_of_lookup hheld
    by_cases hk : k' = k
    · subst hk
      have hnot : (k', v') ∉ r.entries :=
        fun hmem => habsent (List.mem_map_of_mem hmem)
      simp [hnot, eq_comm]
    · simp [hk, lookup_eq_some_iff]

end Recency

end Foundation
end Pacer
