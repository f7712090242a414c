import Mathlib.Data.List.AList
import Mathlib.Data.List.MinMax
import Mathlib.Data.Prod.Lex
import Pacer.Transport.TokenWindow

/-!
# The registry of client endpoints

What a node keeps for each client endpoint is bounded by a capacity, with the
least recently used entry going first, and by a time an entry may be idle.  Any
lookup may find its entry expired and drop it, and an insert first drops all
expired entries and then makes room.

Times are instants of one clock.  Where entries were used at the same instant,
the one that goes is the first the hash map comes across; an order of the
endpoints that is given to each call stands for that.

The main results say which entries a call leaves as they were.
-/

namespace Pacer
namespace Transport

open Foundation

@[ext]
structure ClientEndpoint where
  gid : Bytes
  qpn : Nat
  sized : gid.length = gidBytes
deriving Repr

instance : DecidableEq ClientEndpoint :=
  fun _ _ => decidable_of_iff _ ClientEndpoint.ext_iff.symm

inductive EvictionReason where
  | cap
  | ttl
  | explicit
deriving DecidableEq, Repr

structure RegistryCounters where
  entries : Nat
  evictedCap : Nat
  evictedTtl : Nat
  evictedExplicit : Nat
deriving DecidableEq, Repr

def RegistryCounters.record (counters : RegistryCounters) :
    EvictionReason -> RegistryCounters
  | .cap => { counters with evictedCap := counters.evictedCap + 1 }
  | .ttl => { counters with evictedTtl := counters.evictedTtl + 1 }
  | .explicit =>
    { counters with evictedExplicit := counters.evictedExplicit + 1 }

structure RegistryEntry (value : Type) where
  value : value
  used : Nat
deriving DecidableEq, Repr

structure ClientRegistry (value : Type) where
  entries : AList fun _ : ClientEndpoint => RegistryEntry value
  capacity : Nat
  ttl : Nat
  counters : RegistryCounters
  warned : Bool

namespace ClientRegistry

variable {value : Type}

def withLimits (capacity ttl : Nat) : ClientRegistry value :=
  { entries := ∅, capacity := max capacity 1, ttl := ttl,
    counters := ⟨0, 0, 0, 0⟩, warned := false }

def len (r : ClientRegistry value) : Nat := r.entries.keys.length

def isExpired (r : ClientRegistry value) (now : Nat)
    (endpoint : ClientEndpoint) : Bool :=
  (r.entries.lookup endpoint).any fun entry => r.ttl < now - entry.used

def take (r : ClientRegistry value) (endpoint : ClientEndpoint)
    (reason : EvictionReason) : Option value × ClientRegistry value :=
  match r.entries.lookup endpoint with
  | none => (none, r)
  | some entry =>
    (some entry.value,
      { r with
        entries := r.entries.erase endpoint,
        counters := RegistryCounters.record
          { r.counters with
            entries := (r.entries.erase endpoint).keys.length } reason })

def sweepExpired (r : ClientRegistry value) (now : Nat) :
    Nat × ClientRegistry value :=
  let expired := r.entries.keys.filter (r.isExpired now)
  (expired.length,
    expired.foldl (fun r endpoint => (r.take endpoint .ttl).2) r)

def touch (r : ClientRegistry value) (now : Nat) (endpoint : ClientEndpoint) :
    Option value × ClientRegistry value :=
  if r.isExpired now endpoint then (none, (r.take endpoint .ttl).2)
  else
    match r.entries.lookup endpoint with
    | none => (none, r)
    | some entry =>
      (some entry.value,
        { r with entries :=
            r.entries.insert endpoint { entry with used := now } })

def usedAt (r : ClientRegistry value) (endpoint : ClientEndpoint) : Nat :=
  ((r.entries.lookup endpoint).map RegistryEntry.used).getD 0

def victim (r : ClientRegistry value) (order : ClientEndpoint -> Nat) :
    Option ClientEndpoint :=
  r.entries.keys.argmin fun endpoint =>
    toLex (r.usedAt endpoint, order endpoint)

def evictFrom : Nat -> ClientRegistry value -> (ClientEndpoint -> Nat) ->
    Nat × ClientRegistry value
  | 0, r, _ => (0, r)
  | fuel + 1, r, order =>
    if r.capacity ≤ r.len then
      match r.victim order with
      | none => (0, r)
      | some endpoint =>
        match evictFrom fuel (r.take endpoint .cap).2 order with
        | (gone, r') => (gone + 1, r')
    else (0, r)

def makeRoom (r : ClientRegistry value) (order : ClientEndpoint -> Nat) :
    ClientRegistry value :=
  match evictFrom r.len r order with
  | (gone, r') => { r' with warned := r'.warned || decide (0 < gone) }

def insert (r : ClientRegistry value) (now : Nat)
    (order : ClientEndpoint -> Nat) (endpoint : ClientEndpoint) (v : value) :
    Option value × ClientRegistry value :=
  let swept := (r.sweepExpired now).2
  let roomy :=
    if (swept.entries.lookup endpoint).isSome then swept
    else swept.makeRoom order
  let entries := roomy.entries.insert endpoint { value := v, used := now }
  ((roomy.entries.lookup endpoint).map RegistryEntry.value,
    { roomy with
      entries := entries,
      counters := { roomy.counters with entries := entries.keys.length } })

def getMut (r : ClientRegistry value) (now : Nat) (endpoint : ClientEndpoint)
    (update : value -> value) : Option value × ClientRegistry value :=
  match r.touch now endpoint with
  | (none, r') => (none, r')
  | (some v, r') =>
    (some v,
      { r' with entries :=
          r'.entries.insert endpoint { value := update v, used := now } })

def getOrInsertDefault (r : ClientRegistry value) (now : Nat)
    (order : ClientEndpoint -> Nat) (endpoint : ClientEndpoint)
    (fresh : value) (update : value -> value) :
    value × ClientRegistry value :=
  match r.getMut now endpoint update with
  | (some v, r') => (v, r')
  | (none, r') => (fresh, (r'.insert now order endpoint (update fresh)).2)

def valueOf (r : ClientRegistry value) (endpoint : ClientEndpoint) :
    Option value :=
  (r.entries.lookup endpoint).map RegistryEntry.value

/-!
## Removing entries
-/

structure ShrinksTo (r r' : ClientRegistry value) : Prop where
  capacity : r'.capacity = r.capacity
  ttl : r'.ttl = r.ttl
  len : r'.len ≤ r.len

theorem ShrinksTo.refl (r : ClientRegistry value) : r.ShrinksTo r :=
  ⟨rfl, rfl, Nat.le_refl _⟩

theorem ShrinksTo.trans {r r' r'' : ClientRegistry value}
    (h : r.ShrinksTo r') (h' : r'.ShrinksTo r'') : r.ShrinksTo r'' :=
  ⟨h'.capacity.trans h.capacity, h'.ttl.trans h.ttl, h'.len.trans h.len⟩

theorem lookup_take (r : ClientRegistry value) (endpoint other : ClientEndpoint)
    (reason : EvictionReason) :
    (r.take endpoint reason).2.entries.lookup other =
      if other = endpoint then none else r.entries.lookup other := by
  unfold take
  by_cases heq : other = endpoint
  · rw [if_pos heq, heq]
    cases hfound : r.entries.lookup endpoint with
    | none => exact hfound
    | some entry => exact AList.lookup_erase _ _
  · rw [if_neg heq]
    cases r.entries.lookup endpoint with
    | none => rfl
    | some entry => exact AList.lookup_erase_ne heq

theorem shrinksTo_take (r : ClientRegistry value) (endpoint : ClientEndpoint)
    (reason : EvictionReason) : r.ShrinksTo (r.take endpoint reason).2 := by
  unfold take
  cases r.entries.lookup endpoint with
  | none => exact ShrinksTo.refl r
  | some entry =>
    constructor
    · rfl
    · rfl
    · change (r.entries.erase endpoint).keys.length ≤ r.len
      rw [AList.keys_erase]
      exact List.length_erase_le

variable {r : ClientRegistry value} {endpoint : ClientEndpoint}

theorem len_take_lt (hmem : endpoint ∈ r.entries) (reason : EvictionReason) :
    (r.take endpoint reason).2.len < r.len := by
  rcases Option.isSome_iff_exists.mp (AList.lookup_isSome.mpr hmem) with
    ⟨entry, hfound⟩
  unfold take
  rw [hfound]
  change (r.entries.erase endpoint).keys.length < r.entries.keys.length
  rw [AList.keys_erase, List.length_erase_of_mem hmem]
  have hpos := List.length_pos_of_mem hmem
  lia

theorem lookup_foldl_take (gone : List ClientEndpoint)
    (r : ClientRegistry value) (other : ClientEndpoint)
    (reason : EvictionReason) :
    (gone.foldl (fun r endpoint => (r.take endpoint reason).2)
        r).entries.lookup other =
      if other ∈ gone then none else r.entries.lookup other := by
  induction gone generalizing r with
  | nil => simp
  | cons endpoint rest ih =>
    rw [List.foldl_cons, ih, lookup_take]
    by_cases heq : other = endpoint
    · simp [heq]
    · simp [heq]

theorem shrinksTo_foldl_take (gone : List ClientEndpoint)
    (r : ClientRegistry value) (reason : EvictionReason) :
    r.ShrinksTo
      (gone.foldl (fun r endpoint => (r.take endpoint reason).2) r) := by
  induction gone generalizing r with
  | nil => exact ShrinksTo.refl r
  | cons endpoint rest ih =>
    exact (shrinksTo_take r endpoint reason).trans (ih _)

theorem lookup_eq_some_of_isExpired {now : Nat}
    (h : r.isExpired now endpoint = true) :
    exists entry, r.entries.lookup endpoint = some entry := by
  unfold isExpired at h
  cases hfound : r.entries.lookup endpoint with
  | none =>
    rw [hfound] at h
    cases h
  | some entry => exact ⟨entry, rfl⟩

theorem lookup_sweepExpired (r : ClientRegistry value) (now : Nat)
    (other : ClientEndpoint) :
    (r.sweepExpired now).2.entries.lookup other =
      if r.isExpired now other then none else r.entries.lookup other := by
  unfold sweepExpired
  dsimp only
  rw [lookup_foldl_take]
  by_cases hexpired : r.isExpired now other = true
  · rcases lookup_eq_some_of_isExpired hexpired with ⟨entry, hfound⟩
    have hmem : other ∈ r.entries :=
      AList.lookup_isSome.mp (Option.isSome_iff_exists.mpr ⟨entry, hfound⟩)
    rw [if_pos (List.mem_filter.mpr ⟨hmem, hexpired⟩), if_pos hexpired]
  · rw [if_neg hexpired, if_neg]
    intro hmem
    exact hexpired (List.mem_filter.mp hmem).right

theorem shrinksTo_sweepExpired (r : ClientRegistry value) (now : Nat) :
    r.ShrinksTo (r.sweepExpired now).2 :=
  shrinksTo_foldl_take _ r .ttl

/-!
## Looking an endpoint up
-/

theorem len_insert_of_mem
    {entries : AList fun _ : ClientEndpoint => RegistryEntry value}
    (hmem : endpoint ∈ entries) (entry : RegistryEntry value) :
    (entries.insert endpoint entry).keys.length = entries.keys.length := by
  rw [AList.keys_insert, List.length_cons, List.length_erase_of_mem hmem]
  have hpos := List.length_pos_of_mem hmem
  lia

theorem touch_cases (r : ClientRegistry value) (now : Nat)
    (endpoint : ClientEndpoint) :
    (exists entry, r.entries.lookup endpoint = some entry ∧
      r.isExpired now endpoint = false ∧
      r.touch now endpoint = (some entry.value,
        { r with entries :=
            r.entries.insert endpoint { entry with used := now } })) ∨
    ((r.entries.lookup endpoint = none ∨ r.isExpired now endpoint = true) ∧
      exists r', r.touch now endpoint = (none, r') ∧ r.ShrinksTo r' ∧
        r'.entries.lookup endpoint = none ∧
        forall other, other ≠ endpoint ->
          r'.entries.lookup other = r.entries.lookup other) := by
  unfold touch
  by_cases hexpired : r.isExpired now endpoint = true
  · rw [if_pos hexpired]
    apply Or.inr
    constructor
    · exact .inr hexpired
    · exists (r.take endpoint .ttl).2
      constructor
      · rfl
      constructor
      · exact shrinksTo_take r endpoint .ttl
      constructor
      · rw [lookup_take, if_pos rfl]
      · intro other hother
        rw [lookup_take, if_neg hother]
  · rw [if_neg hexpired]
    cases hfound : r.entries.lookup endpoint with
    | none =>
      exact .inr ⟨.inl rfl, r, rfl, ShrinksTo.refl r, hfound,
        fun _ _ => rfl⟩
    | some entry =>
      exact .inl ⟨entry, rfl, Bool.eq_false_iff.mpr hexpired, rfl⟩

theorem getMut_cases (r : ClientRegistry value) (now : Nat)
    (endpoint : ClientEndpoint) (update : value -> value) :
    (exists v r', r.valueOf endpoint = some v ∧
      r.isExpired now endpoint = false ∧
      r.getMut now endpoint update = (some v, r') ∧ r.ShrinksTo r' ∧
      r'.valueOf endpoint = some (update v) ∧
      forall other, other ≠ endpoint ->
        r'.entries.lookup other = r.entries.lookup other) ∨
    ((r.valueOf endpoint = none ∨ r.isExpired now endpoint = true) ∧
      exists r', r.touch now endpoint = (none, r') ∧
        r.getMut now endpoint update = (none, r') ∧ r.ShrinksTo r' ∧
        r'.valueOf endpoint = none ∧
        forall other, other ≠ endpoint ->
          r'.entries.lookup other = r.entries.lookup other) := by
  unfold getMut valueOf
  rcases touch_cases r now endpoint with
    ⟨entry, hfound, hlive, htouch⟩ | ⟨hwhy, r', htouch, hshrinks, hnone, hrest⟩
  · rw [htouch]
    have hmem : endpoint ∈ r.entries :=
      AList.lookup_isSome.mp (Option.isSome_iff_exists.mpr ⟨entry, hfound⟩)
    refine .inl ⟨entry.value, _, ?_, hlive, rfl, ⟨rfl, rfl, ?_⟩, ?_, ?_⟩
    · rw [hfound]
      rfl
    · change ((r.entries.insert endpoint _).insert endpoint _).keys.length ≤ _
      rw [AList.insert_insert, len_insert_of_mem hmem]
      exact Nat.le_refl _
    · rw [AList.lookup_insert]
      rfl
    · intro other hother
      rw [AList.lookup_insert_ne hother, AList.lookup_insert_ne hother]
  · rw [htouch]
    refine .inr ⟨?_, r', rfl, rfl, hshrinks, ?_, hrest⟩
    · rcases hwhy with habsent | hexpired
      · rw [habsent]
        exact .inl rfl
      · exact .inr hexpired
    · rw [hnone]
      rfl

/-!
## Making room
-/

theorem mem_of_victim {order : ClientEndpoint -> Nat}
    (h : r.victim order = some endpoint) : endpoint ∈ r.entries :=
  List.argmin_mem h

theorem evictFrom_of_room (hroom : r.len < r.capacity) (fuel : Nat)
    (order : ClientEndpoint -> Nat) :
    evictFrom fuel r order = (0, r) := by
  cases fuel with
  | zero => rfl
  | succ fuel =>
    unfold evictFrom
    rw [if_neg (Nat.not_le.mpr hroom)]

theorem makeRoom_cases (hlen : r.len ≤ r.capacity) (hpos : 0 < r.capacity)
    (order : ClientEndpoint -> Nat) :
    (r.makeRoom order).capacity = r.capacity ∧
    (r.makeRoom order).ttl = r.ttl ∧
    (r.makeRoom order).len < r.capacity ∧
    forall other,
      (r.capacity ≤ r.len -> r.victim order ≠ some other) ->
        (r.makeRoom order).entries.lookup other = r.entries.lookup other := by
  unfold makeRoom
  by_cases hfull : r.capacity ≤ r.len
  · cases hvictim : r.victim order with
    | none =>
      have hempty : r.entries.keys = [] := List.argmin_eq_none.mp hvictim
      have hzero : r.len = 0 := by
        unfold len
        rw [hempty]
        rfl
      lia
    | some endpoint =>
      have hshrinks := shrinksTo_take r endpoint .cap
      have hlt := len_take_lt (mem_of_victim hvictim) .cap
      have hroom : (r.take endpoint .cap).2.len <
          (r.take endpoint .cap).2.capacity := by
        rw [hshrinks.capacity]
        exact Nat.lt_of_lt_of_le hlt hlen
      have hevict : evictFrom r.len r order =
          (1, (r.take endpoint .cap).2) := by
        obtain ⟨fuel, hfuel⟩ : exists fuel, r.len = fuel + 1 :=
          ⟨r.len - 1, by lia⟩
        rw [hfuel]
        unfold evictFrom
        rw [if_pos hfull, hvictim]
        dsimp only
        rw [evictFrom_of_room hroom]
      rw [hevict]
      refine ⟨hshrinks.capacity, hshrinks.ttl, ?_, ?_⟩
      · exact Nat.lt_of_lt_of_le hlt hlen
      · intro other hother
        dsimp only
        rw [lookup_take, if_neg]
        intro heq
        exact hother hfull (by rw [heq])
  · have hroom : r.len < r.capacity := Nat.lt_of_not_le hfull
    rw [evictFrom_of_room hroom]
    exact ⟨rfl, rfl, hroom, fun _ _ => rfl⟩

/-!
## Inserting an endpoint
-/

structure Bounded (r : ClientRegistry value) : Prop where
  positive : 0 < r.capacity
  len : r.len ≤ r.capacity

theorem Bounded.of_shrinksTo {r r' : ClientRegistry value} (h : r.Bounded)
    (hshrinks : r.ShrinksTo r') : r'.Bounded := by
  constructor
  · rw [hshrinks.capacity]
    exact h.positive
  · rw [hshrinks.capacity]
    exact hshrinks.len.trans h.len

theorem bounded_withLimits (capacity ttl : Nat) :
    (withLimits capacity ttl : ClientRegistry value).Bounded := by
  constructor
  · change 0 < max capacity 1
    lia
  · change 0 ≤ max capacity 1
    exact Nat.zero_le _

/-- Neither the sweep of an insert nor its making room takes `other`. -/
def InsertSpares (r : ClientRegistry value) (now : Nat)
    (order : ClientEndpoint -> Nat) (other : ClientEndpoint) : Prop :=
  r.isExpired now other = false ∧
    ((r.sweepExpired now).2.capacity ≤ (r.sweepExpired now).2.len ->
      (r.sweepExpired now).2.victim order ≠ some other)

theorem insert_spec (hbounded : r.Bounded) (now : Nat)
    (order : ClientEndpoint -> Nat) {endpoint : ClientEndpoint}
    (habsent : r.entries.lookup endpoint = none) (v : value) :
    (r.insert now order endpoint v).2.Bounded ∧
    (r.insert now order endpoint v).2.valueOf endpoint = some v ∧
    forall other, other ≠ endpoint -> r.InsertSpares now order other ->
      (r.insert now order endpoint v).2.valueOf other = r.valueOf other := by
  have hshrinks := shrinksTo_sweepExpired r now
  have hswept := hbounded.of_shrinksTo hshrinks
  rcases makeRoom_cases hswept.len hswept.positive order with
    ⟨hcapacity, _, hroom, hrest⟩
  have hnone : (r.sweepExpired now).2.entries.lookup endpoint = none := by
    rw [lookup_sweepExpired, habsent]
    exact ite_self none
  unfold insert
  dsimp only
  rw [hnone]
  refine ⟨⟨?_, ?_⟩, ?_, ?_⟩
  · change 0 < ((r.sweepExpired now).2.makeRoom order).capacity
    rw [hcapacity]
    exact hswept.positive
  · change (AList.insert endpoint _
        ((r.sweepExpired now).2.makeRoom order).entries).keys.length ≤
      ((r.sweepExpired now).2.makeRoom order).capacity
    rw [AList.keys_insert, List.length_cons, hcapacity]
    exact Nat.succ_le_of_lt
      (Nat.lt_of_le_of_lt List.length_erase_le hroom)
  · unfold valueOf
    rw [AList.lookup_insert]
    rfl
  · intro other hother hspares
    change ((AList.insert endpoint _
        ((r.sweepExpired now).2.makeRoom order).entries).lookup other).map _ = _
    rw [AList.lookup_insert_ne hother, hrest other hspares.right,
      lookup_sweepExpired, hspares.left]
    rfl

instance (r : ClientRegistry value) (now : Nat)
    (order : ClientEndpoint -> Nat) (other : ClientEndpoint) :
    Decidable (r.InsertSpares now order other) :=
  inferInstanceAs (Decidable (_ ∧ (_ -> _)))

/-!
## What a lookup leaves as it was
-/

/-- A lookup of `endpoint` that inserts nothing leaves `other` where it is. -/
def LookSpares (r : ClientRegistry value) (now : Nat)
    (endpoint other : ClientEndpoint) : Prop :=
  other = endpoint -> r.isExpired now other = false

instance (r : ClientRegistry value) (now : Nat)
    (endpoint other : ClientEndpoint) :
    Decidable (r.LookSpares now endpoint other) :=
  inferInstanceAs (Decidable (_ -> _))

/-- A lookup of `endpoint` that inserts it if there is none leaves `other` where
it is. -/
def Spares (r : ClientRegistry value) (now : Nat)
    (order : ClientEndpoint -> Nat) (endpoint other : ClientEndpoint) : Prop :=
  r.LookSpares now endpoint other ∧
    ((r.touch now endpoint).1 = none ->
      (r.touch now endpoint).2.InsertSpares now order other)

instance (r : ClientRegistry value) (now : Nat)
    (order : ClientEndpoint -> Nat) (endpoint other : ClientEndpoint) :
    Decidable (r.Spares now order endpoint other) :=
  inferInstanceAs (Decidable (_ ∧ (_ -> _)))

section Kept

variable {r : ClientRegistry value} {now : Nat}
variable {order : ClientEndpoint -> Nat} {endpoint other : ClientEndpoint}
variable {part : value -> kept} {update : value -> value} {v : value}

theorem shrinksTo_getMut (r : ClientRegistry value) (now : Nat)
    (endpoint : ClientEndpoint) (update : value -> value) :
    r.ShrinksTo (r.getMut now endpoint update).2 := by
  rcases getMut_cases r now endpoint update with
    ⟨v, r', _, _, hget, hshrinks, _⟩ | ⟨_, r', _, hget, hshrinks, _⟩
  · rw [hget]
    exact hshrinks
  · rw [hget]
    exact hshrinks

theorem kept_getMut (hupdate : forall v, part (update v) = part v)
    (hspares : r.LookSpares now endpoint other)
    (hfound : r.valueOf other = some v) :
    exists v', (r.getMut now endpoint update).2.valueOf other = some v' ∧
      part v' = part v := by
  rcases getMut_cases r now endpoint update with
    ⟨w, r', hw, _, hget, _, hself, hrest⟩ |
    ⟨hwhy, r', _, hget, _, _, hrest⟩
  · rw [hget]
    by_cases hother : other = endpoint
    · rw [hother] at hfound ⊢
      rw [hw] at hfound
      cases hfound
      exact ⟨update v, hself, hupdate v⟩
    · refine ⟨v, ?_, rfl⟩
      change (r'.entries.lookup other).map _ = some v
      rw [hrest other hother]
      exact hfound
  · rw [hget]
    have hother : other ≠ endpoint := by
      intro heq
      have hlive := hspares heq
      rw [heq] at hlive hfound
      rcases hwhy with habsent | hexpired
      · rw [habsent] at hfound
        cases hfound
      · rw [hlive] at hexpired
        cases hexpired
    refine ⟨v, ?_, rfl⟩
    change (r'.entries.lookup other).map _ = some v
    rw [hrest other hother]
    exact hfound

theorem getOrInsertDefault_cases (r : ClientRegistry value) (now : Nat)
    (order : ClientEndpoint -> Nat) (endpoint : ClientEndpoint)
    (fresh : value) (update : value -> value) :
    (exists v, r.getOrInsertDefault now order endpoint fresh update =
        (v, (r.getMut now endpoint update).2) ∧
      (r.getMut now endpoint update).2.valueOf endpoint = some (update v)) ∨
    ((r.touch now endpoint).1 = none ∧
      (r.getMut now endpoint update).2 = (r.touch now endpoint).2 ∧
      (r.touch now endpoint).2.entries.lookup endpoint = none ∧
      r.getOrInsertDefault now order endpoint fresh update =
        (fresh, ((r.touch now endpoint).2.insert now order endpoint
          (update fresh)).2)) := by
  unfold getOrInsertDefault
  rcases getMut_cases r now endpoint update with
    ⟨v, r', _, _, hget, _, hself, _⟩ | ⟨_, r', htouch, hget, _, hnone, _⟩
  · rw [hget]
    exact .inl ⟨v, rfl, hself⟩
  · rw [hget, htouch]
    exact .inr ⟨rfl, rfl, Option.map_eq_none_iff.mp hnone, rfl⟩

theorem Bounded.touch (hbounded : r.Bounded)
    (hnone : (r.touch now endpoint).1 = none) :
    (r.touch now endpoint).2.Bounded := by
  rcases touch_cases r now endpoint with
    ⟨entry, _, _, htouch⟩ | ⟨_, r', htouch, hshrinks, _⟩
  · rw [htouch] at hnone
    cases hnone
  · rw [htouch]
    exact hbounded.of_shrinksTo hshrinks

theorem bounded_getOrInsertDefault (hbounded : r.Bounded) (fresh : value) :
    (r.getOrInsertDefault now order endpoint fresh update).2.Bounded := by
  rcases getOrInsertDefault_cases r now order endpoint fresh update with
    ⟨v, heq, _⟩ | ⟨htouch, _, habsent, heq⟩
  · rw [heq]
    exact hbounded.of_shrinksTo (shrinksTo_getMut r now endpoint update)
  · rw [heq]
    exact (insert_spec (hbounded.touch htouch) now order habsent
      (update fresh)).left

theorem valueOf_getOrInsertDefault (hbounded : r.Bounded) (fresh : value) :
    (r.getOrInsertDefault now order endpoint fresh update).2.valueOf endpoint =
      some (update
        (r.getOrInsertDefault now order endpoint fresh update).1) := by
  rcases getOrInsertDefault_cases r now order endpoint fresh update with
    ⟨v, heq, hself⟩ | ⟨htouch, _, habsent, heq⟩
  · rw [heq]
    exact hself
  · rw [heq]
    exact (insert_spec (hbounded.touch htouch) now order habsent
      (update fresh)).right.left

theorem kept_getOrInsertDefault (hbounded : r.Bounded)
    (hupdate : forall v, part (update v) = part v)
    (hspares : r.Spares now order endpoint other)
    (hfound : r.valueOf other = some v) (fresh : value) :
    exists v', (r.getOrInsertDefault now order endpoint fresh
        update).2.valueOf other = some v' ∧ part v' = part v := by
  rcases kept_getMut hupdate hspares.left hfound with ⟨v', hv', hpart⟩
  rcases getOrInsertDefault_cases r now order endpoint fresh update with
    ⟨w, heq, _⟩ | ⟨htouch, hget, habsent, heq⟩
  · rw [heq]
    exact ⟨v', hv', hpart⟩
  · rw [hget] at hv'
    have hother : other ≠ endpoint := by
      intro hsame
      unfold valueOf at hv'
      rw [hsame, habsent] at hv'
      cases hv'
    rw [heq]
    refine ⟨v', ?_, hpart⟩
    rw [← hv']
    exact (insert_spec (hbounded.touch htouch) now order habsent
      (update fresh)).right.right other hother (hspares.right htouch)

end Kept

end ClientRegistry

end Transport
end Pacer
