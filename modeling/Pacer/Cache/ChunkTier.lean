import Pacer.Cache.Chunk
import Pacer.Cache.StoreLru
import Pacer.Daemon.FillRegistry

/-!
# The chunk tier

The seam every chunk read and fill goes through: chunk bodies live in the
hybrid cache, or in the slot store.  Either tier is a map from keys to chunks,
as the fill path sees it, but a second put of a held key replaces the chunk in
the first and is dropped by the second.

The main result says exactly which runs of calls tell the two tiers apart.
-/

namespace Pacer
namespace Cache

open Foundation Function
open Daemon (DiskTier)

inductive CacheValue where
  | object (header : ObjectHeader)
  | chunk (chunk : CachedChunk)
deriving DecidableEq, Repr

def CacheValue.asChunk : CacheValue -> Option CachedChunk
  | .object _ => none
  | .chunk held => some held

/-- The hybrid cache, as a map whose insert replaces, and the slot store if it
owns the chunk bodies. -/
structure ChunkTier where
  cache : String -> Option CacheValue
  store : Option Store

namespace ChunkTier

def foyer (cache : String -> Option CacheValue) : ChunkTier :=
  { cache := cache, store := none }

def withStore (cache : String -> Option CacheValue) (store : Store) :
    ChunkTier :=
  { cache := cache, store := some store }

def getChunk (cfg : StoreConfig) (tier : ChunkTier) (key : String) :
    Except IoError (Option CachedChunk) × ChunkTier :=
  match tier.store with
  | some store =>
    match store.get cfg key with
    | (result, store) => (result, { tier with store := some store })
  | none => (.ok ((tier.cache key).bind CacheValue.asChunk), tier)

def forget (tier : ChunkTier) (key : String) : ChunkTier :=
  let tier := { tier with cache := update tier.cache key none }
  match tier.store with
  | some store => { tier with store := some (store.remove key).2 }
  | none => tier

def putChunk (cfg : StoreConfig) (tier : ChunkTier) (key : String)
    (chunk : CachedChunk) : Except String Unit × ChunkTier :=
  match tier.store with
  | some store =>
    match store.put cfg key chunk with
    | (result, store) => (result, { tier with store := some store })
  | none =>
    (.ok (), { tier with
      cache := update tier.cache key (some (.chunk chunk)) })

end ChunkTier

inductive TierOp where
  | getChunk (key : String)
  | forget (key : String)
  | putChunk (key : String) (chunk : CachedChunk)
deriving DecidableEq, Repr

inductive TierAnswer where
  | got (result : Except IoError (Option CachedChunk))
  | forgotten
  | stored (result : Except String Unit)

namespace ChunkTier

def apply (cfg : StoreConfig) (tier : ChunkTier) :
    TierOp -> TierAnswer × ChunkTier
  | .getChunk key =>
    match tier.getChunk cfg key with
    | (result, tier) => (.got result, tier)
  | .forget key => (.forgotten, tier.forget key)
  | .putChunk key chunk =>
    match tier.putChunk cfg key chunk with
    | (result, tier) => (.stored result, tier)

def answers (cfg : StoreConfig) : ChunkTier -> List TierOp -> List TierAnswer
  | _, [] => []
  | tier, op :: rest =>
    (tier.apply cfg op).1 :: answers cfg (tier.apply cfg op).2 rest

def Roomy (tier : ChunkTier) : TierOp -> Prop
  | .getChunk _ => True
  | .forget _ => True
  | .putChunk key _ =>
    forall store, tier.store = some store ->
      store.index.map key = none -> store.index.free ≠ []

def NothingEvicted (cfg : StoreConfig) : ChunkTier -> List TierOp -> Prop
  | _, [] => True
  | tier, op :: rest =>
    tier.Roomy op ∧ NothingEvicted cfg (tier.apply cfg op).2 rest

end ChunkTier

def TierOp.Storable (cfg : StoreConfig) : TierOp -> Prop
  | .getChunk _ => True
  | .forget _ => True
  | .putChunk key chunk =>
    key ≠ "" ∧ chunk.eTag ≠ some "" ∧ (putHeader key chunk).Fits ∧
      chunk.body.length ≤ cfg.chunkSize

/-!
## A tier as a map
-/

abbrev Held := String -> Option CachedChunk

def heldNext (kind : DiskTier) (held : Held) : TierOp -> Held
  | .getChunk _ => held
  | .forget key => update held key none
  | .putChunk key chunk =>
    update held key (kind.putChunk (held key) chunk)

def heldAnswer (held : Held) : TierOp -> TierAnswer
  | .getChunk key => .got (.ok (held key))
  | .forget _ => .forgotten
  | .putChunk _ _ => .stored (.ok ())

def heldAnswers (kind : DiskTier) : Held -> List TierOp -> List TierAnswer
  | _, [] => []
  | held, op :: rest =>
    heldAnswer held op :: heldAnswers kind (heldNext kind held op) rest

section Foyer

variable {cfg : StoreConfig} {held : Held}
  {cache : String -> Option CacheValue}

def Caches (cache : String -> Option CacheValue) (held : Held) : Prop :=
  forall key, (cache key).bind CacheValue.asChunk = held key

theorem Caches.update (h : Caches cache held) (key : String)
    (value : Option CacheValue) :
    Caches (update cache key value)
      (update held key (value.bind CacheValue.asChunk)) := by
  intro k
  rw [update_apply, update_apply]
  split
  · rfl
  · exact h k

theorem Caches.apply (h : Caches cache held) (op : TierOp) :
    ((ChunkTier.foyer cache).apply cfg op).1 = heldAnswer held op ∧
      exists cache', ((ChunkTier.foyer cache).apply cfg op).2 =
          ChunkTier.foyer cache' ∧
        Caches cache' (heldNext .foyer held op) := by
  cases op with
  | getChunk key =>
    constructor
    · show TierAnswer.got (.ok ((cache key).bind _)) = .got (.ok (held key))
      rw [h key]
    · exact ⟨cache, rfl, h⟩
  | forget key => exact ⟨rfl, _, rfl, h.update key none⟩
  | putChunk key chunk =>
    exact ⟨rfl, _, rfl, h.update key (some (.chunk chunk))⟩

theorem Caches.answers (h : Caches cache held) (ops : List TierOp) :
    (ChunkTier.foyer cache).answers cfg ops =
      heldAnswers .foyer held ops := by
  induction ops generalizing cache held with
  | nil => rfl
  | cons op rest ih =>
    rcases h.apply op with ⟨hanswer, cache', hnext, hcaches⟩
    rw [ChunkTier.answers, heldAnswers, hanswer, hnext, ih hcaches]

end Foyer

variable {ops : List TierOp}

section WithStore

variable {cfg : StoreConfig} {held : Held} {store : Store}
  {cache : String -> Option CacheValue}

def Stores (cfg : StoreConfig) (store : Store) (held : Held) : Prop :=
  exists r : Ideal cfg, Refines cfg store r ∧ forall key, r.lookup key = held key

section

variable (h : Stores cfg store held)

include h

theorem Stores.get (key : String) :
    (store.get cfg key).1 = .ok (held key) ∧
      Stores cfg (store.get cfg key).2 held := by
  rcases h with ⟨r, hrefines, hlookup⟩
  rcases hrefines.get key with ⟨hanswer, hnext⟩
  rw [hanswer, hlookup key]
  refine ⟨rfl, r.touch key, hnext, ?_⟩
  intro k
  rw [Recency.lookup_touch, hlookup k]

theorem Stores.remove (key : String) :
    Stores cfg (store.remove key).2 (update held key none) := by
  rcases h with ⟨r, hrefines, hlookup⟩
  refine ⟨r.erase key, (hrefines.remove key).right, ?_⟩
  intro k
  rw [Recency.lookup_erase, update_apply, hlookup k]

theorem Stores.put {key : String} {chunk : CachedChunk}
    (hsize : cfg.chunkSize < 2 ^ 32)
    (hop : TierOp.Storable cfg (.putChunk key chunk))
    (hroom : store.index.map key = none -> store.index.free ≠ []) :
    (store.put cfg key chunk).1 = .ok () ∧
      Stores cfg (store.put cfg key chunk).2
        (update held key
          (DiskTier.store.putChunk (held key) chunk)) := by
  rcases h with ⟨r, hrefines, hlookup⟩
  rcases hop with ⟨hkey, htag, hfits, hlen⟩
  rcases hrefines.put hkey htag hfits hlen hsize with ⟨hanswer, hnext⟩
  refine ⟨hanswer, r.insert key chunk, hnext, ?_⟩
  intro k
  have hlength : r.lookup key = none -> r.entries.length < cfg.slotCount := by
    intro habsent
    rw [← hrefines.length_eq]
    apply hrefines.bookkept.free_ne_nil_iff.mp
    apply hroom
    cases hmap : store.index.map key with
    | none => rfl
    | some slot =>
      rcases hrefines.split_of_mapped hmap with
        ⟨_, _, _, _, _, _, _, _, hlist, _, _⟩
      rw [Recency.lookup_of_split hlist] at habsent
      cases habsent
  rw [Recency.lookup_insert_of_room r key chunk hlength, update_apply,
    hlookup key, hlookup k]
  cases held key with
  | none => rfl
  | some old => rfl

theorem Stores.apply (hsize : cfg.chunkSize < 2 ^ 32) {op : TierOp}
    (hop : op.Storable cfg) (hroom : (ChunkTier.withStore cache store).Roomy op)
    :
    ((ChunkTier.withStore cache store).apply cfg op).1 = heldAnswer held op ∧
      exists cache' store',
        ((ChunkTier.withStore cache store).apply cfg op).2 =
          ChunkTier.withStore cache' store' ∧
        Stores cfg store' (heldNext .store held op) := by
  cases op with
  | getChunk key =>
    rcases h.get key with ⟨hanswer, hnext⟩
    exact ⟨congrArg TierAnswer.got hanswer, cache, _, rfl, hnext⟩
  | forget key => exact ⟨rfl, _, _, rfl, h.remove key⟩
  | putChunk key chunk =>
    rcases h.put hsize hop (hroom store rfl) with ⟨hanswer, hnext⟩
    exact ⟨congrArg TierAnswer.stored hanswer, cache, _, rfl, hnext⟩

theorem Stores.answers (hsize : cfg.chunkSize < 2 ^ 32)
    (hops : forall op, op ∈ ops -> op.Storable cfg)
    (hroom : (ChunkTier.withStore cache store).NothingEvicted cfg ops) :
    (ChunkTier.withStore cache store).answers cfg ops =
      heldAnswers .store held ops := by
  induction ops generalizing cache store held with
  | nil => rfl
  | cons op rest ih =>
    rcases hroom with ⟨hhere, hrest⟩
    rcases h.apply hsize (hops op List.mem_cons_self) hhere with
      ⟨hanswer, cache', store', hnext, hstores⟩
    rw [hnext] at hrest
    rw [ChunkTier.answers, heldAnswers, hanswer, hnext,
      ih hstores (fun op hmem => hops op (List.mem_cons_of_mem _ hmem))
        hrest]

end

end WithStore

/-!
## Runs that evict nothing
-/

theorem Stores.free_ne_nil {cfg : StoreConfig} {held : Held} {store : Store}
    {keys : List String} {key : String} (h : Stores cfg store held)
    (hheld : forall k, held k ≠ none -> k ∈ keys)
    (hlength : keys.length ≤ cfg.slotCount) (hkey : key ∈ keys)
    (hmap : store.index.map key = none) : store.index.free ≠ [] := by
  rcases h with ⟨r, hrefines, hlookup⟩
  have habsent := Recency.not_mem_keys_of_lookup
    (hrefines.lookup_of_unmapped hmap)
  have hnodup : (key :: r.entries.map Prod.fst).Nodup :=
    List.nodup_cons.mpr ⟨habsent, r.nodup⟩
  have hsub : key :: r.entries.map Prod.fst ⊆ keys := by
    intro k hk
    rcases List.mem_cons.mp hk with rfl | hmem
    · exact hkey
    · rcases List.mem_map.mp hmem with ⟨⟨name, chunk⟩, hentry, rfl⟩
      apply hheld
      rw [← hlookup, Recency.lookup_eq_some_iff.mpr hentry]
      intro hnone
      cases hnone
  have hle := (List.subperm_of_subset hnodup hsub).length_le
  rw [List.length_cons, List.length_map] at hle
  apply hrefines.bookkept.free_ne_nil_iff.mpr
  rw [hrefines.length_eq]
  lia

theorem Stores.nothingEvicted {cfg : StoreConfig} {held : Held} {store : Store}
    (h : Stores cfg store held) (cache : String -> Option CacheValue)
    (keys : List String) (hsize : cfg.chunkSize < 2 ^ 32)
    (hops : forall op, op ∈ ops -> op.Storable cfg)
    (hheld : forall k, held k ≠ none -> k ∈ keys)
    (hlength : keys.length ≤ cfg.slotCount)
    (hkeys : forall key chunk, .putChunk key chunk ∈ ops -> key ∈ keys) :
    (ChunkTier.withStore cache store).NothingEvicted cfg ops := by
  induction ops generalizing cache store held with
  | nil => trivial
  | cons op rest ih =>
    have hroom : (ChunkTier.withStore cache store).Roomy op := by
      cases op with
      | getChunk key => trivial
      | forget key => trivial
      | putChunk key chunk =>
        rintro _ ⟨⟩ hmap
        exact h.free_ne_nil hheld hlength
          (hkeys key chunk List.mem_cons_self) hmap
    rcases h.apply hsize (hops op List.mem_cons_self) hroom with
      ⟨_, cache', store', hnext, hstores⟩
    refine ⟨hroom, ?_⟩
    rw [hnext]
    apply ih hstores cache'
    · exact fun op hmem => hops op (List.mem_cons_of_mem _ hmem)
    · intro k hk
      cases op with
      | getChunk key => exact hheld k hk
      | forget key =>
        simp only [heldNext, update_apply] at hk
        split at hk
        · exact absurd rfl hk
        · exact hheld k hk
      | putChunk key chunk =>
        simp only [heldNext, update_apply] at hk
        split at hk
        · rename_i heq
          rw [heq]
          exact hkeys key chunk List.mem_cons_self
        · exact hheld k hk
    · exact fun key chunk hmem =>
        hkeys key chunk (List.mem_cons_of_mem _ hmem)

/-!
## The puts since a forget
-/

def putsNext (puts : String -> List CachedChunk) :
    TierOp -> String -> List CachedChunk
  | .getChunk _ => puts
  | .forget key => update puts key []
  | .putChunk key chunk => update puts key (puts key ++ [chunk])

def putsSince (ops : List TierOp) : String -> List CachedChunk :=
  ops.foldl putsNext fun _ => []

variable (puts : String -> List CachedChunk)

theorem heldNext_store (op : TierOp) :
    heldNext .store (fun key => (puts key).head?) op =
      fun key => (putsNext puts op key).head? := by
  funext k
  cases op with
  | getChunk key => rfl
  | forget key =>
    simp only [heldNext, putsNext, update_apply]
    split
    · rfl
    · rfl
  | putChunk key chunk =>
    simp only [heldNext, putsNext, update_apply]
    split
    · cases puts key with
      | nil => rfl
      | cons first rest => rfl
    · rfl

theorem heldNext_foyer (op : TierOp) :
    heldNext .foyer (fun key => (puts key).getLast?) op =
      fun key => (putsNext puts op key).getLast? := by
  funext k
  cases op with
  | getChunk key => rfl
  | forget key =>
    simp only [heldNext, putsNext, update_apply]
    split
    · rfl
    · rfl
  | putChunk key chunk =>
    simp only [heldNext, putsNext, update_apply]
    split
    · rw [List.getLast?_concat]
      rfl
    · rfl

theorem heldAnswers_eq_iff (ops : List TierOp) :
    heldAnswers .store (fun key => (puts key).head?) ops =
        heldAnswers .foyer (fun key => (puts key).getLast?) ops <->
      forall front key back, ops = front ++ .getChunk key :: back ->
        (front.foldl putsNext puts key).head? =
          (front.foldl putsNext puts key).getLast? := by
  induction ops generalizing puts with
  | nil =>
    constructor
    · intro _ front key back hsplit
      cases front <;> cases hsplit
    · intro _
      rfl
  | cons op rest ih =>
    rw [heldAnswers, heldAnswers, heldNext_store, heldNext_foyer,
      List.cons.injEq, ih]
    constructor
    · rintro ⟨hhere, hrest⟩ front key back hsplit
      cases front with
      | nil =>
        cases hsplit
        simpa [heldAnswer] using hhere
      | cons first front =>
        cases hsplit
        exact hrest front key back rfl
    · intro hall
      constructor
      · cases op with
        | getChunk key =>
          have hhere := hall [] key rest rfl
          simpa [heldAnswer] using hhere
        | forget key => rfl
        | putChunk key chunk => rfl
      · intro front key back hsplit
        exact hall (op :: front) key back (congrArg _ hsplit)

/-!
## The two tiers
-/

def NoChunks (cache : String -> Option CacheValue) : Prop :=
  Caches cache fun _ => none

theorem stores_opened {cfg : StoreConfig} {dir : Directory} {opened : Store}
    (hslots : cfg.slotCount ≤ 2 ^ 32) (hunused : Unused cfg dir)
    (hopen : openStore cfg dir = .ok opened) :
    Stores cfg opened fun _ => none := by
  rcases openStore_ok hopen with ⟨_, rfl⟩
  exact ⟨Ideal.opened cfg, refines_opened hslots hunused, fun _ => rfl⟩

/-- Over calls that evict nothing, the two tiers return the same exactly when
every get is of a key whose first and last put since it was forgotten are the
same chunk. -/
theorem tiers_agree_iff {cfg : StoreConfig} {dir : Directory} {opened : Store}
    {cache : String -> Option CacheValue}
    (hslots : cfg.slotCount ≤ 2 ^ 32) (hsize : cfg.chunkSize < 2 ^ 32)
    (hunused : Unused cfg dir) (hopen : openStore cfg dir = .ok opened)
    (hcache : NoChunks cache) {ops : List TierOp}
    (hops : forall op, op ∈ ops -> op.Storable cfg)
    (hroom : (ChunkTier.withStore cache opened).NothingEvicted cfg ops) :
    (ChunkTier.withStore cache opened).answers cfg ops =
        (ChunkTier.foyer cache).answers cfg ops <->
      forall front key back, ops = front ++ .getChunk key :: back ->
        (putsSince front key).head? = (putsSince front key).getLast? := by
  have hstores := stores_opened hslots hunused hopen
  rw [hstores.answers hsize hops hroom, hcache.answers]
  exact heldAnswers_eq_iff (fun _ => []) ops

def emptyCache : String -> Option CacheValue := fun _ => none

theorem stores_oneSlot :
    Stores (pageStore 1)
      { index := { Index.empty with free := [0] },
        dir := sizedTo (pageStore 1) noFiles } fun _ => none := by
  exact stores_opened slotCount_pageStore_one (unused_noFiles _)
    openStore_oneSlot

theorem nothingEvicted_oneSlot
    (hops : forall op, op ∈ ops -> op.Storable (pageStore 1))
    (hkeys : forall key chunk, .putChunk key chunk ∈ ops -> key ∈ ["a"]) :
    (ChunkTier.withStore emptyCache
      { index := { Index.empty with free := [0] },
        dir := sizedTo (pageStore 1) noFiles }).NothingEvicted (pageStore 1)
      ops :=
  stores_oneSlot.nothingEvicted emptyCache ["a"] (by decide) hops
    (fun _ hnone => absurd rfl hnone) (slotCount_pos _) hkeys

def putTwice (first second : UInt8) : List TierOp :=
  [.putChunk "a" (single first), .putChunk "a" (single second),
    .getChunk "a"]

theorem putTwice_storable (first second : UInt8) (op : TierOp)
    (hop : op ∈ putTwice first second) : op.Storable (pageStore 1) := by
  simp only [putTwice, List.mem_cons, List.not_mem_nil, or_false] at hop
  rcases hop with rfl | rfl | rfl
  · exact ⟨by decide, nofun, fits_a first, length_single_le first 1⟩
  · exact ⟨by decide, nofun, fits_a second, length_single_le second 1⟩
  · trivial

theorem putTwice_keys (first second : UInt8) (key : String)
    (chunk : CachedChunk)
    (hop : .putChunk key chunk ∈ putTwice first second) : key ∈ ["a"] := by
  simp only [putTwice, List.mem_cons, List.not_mem_nil, or_false,
    TierOp.putChunk.injEq, reduceCtorEq] at hop
  rcases hop with ⟨rfl, _⟩ | ⟨rfl, _⟩
  · exact List.mem_singleton_self _
  · exact List.mem_singleton_self _

theorem tiers_agree_repeated :
    exists opened, openStore (pageStore 1) noFiles = .ok opened ∧
      (ChunkTier.withStore emptyCache opened).answers (pageStore 1)
          (putTwice 1 1) =
        (ChunkTier.foyer emptyCache).answers (pageStore 1) (putTwice 1 1) := by
  refine ⟨_, openStore_oneSlot, ?_⟩
  apply (tiers_agree_iff slotCount_pageStore_one (by decide) (unused_noFiles _)
    openStore_oneSlot (fun _ => rfl) (putTwice_storable 1 1)
    (nothingEvicted_oneSlot (putTwice_storable 1 1)
      (putTwice_keys 1 1))).mpr
  intro front key back hsplit
  rcases front with _ | ⟨_, _ | ⟨_, _ | ⟨_, front⟩⟩⟩
  · cases hsplit
  · cases hsplit
  · cases hsplit
    rfl
  · cases front <;> cases hsplit

theorem putTwice_differs :
    exists opened, openStore (pageStore 1) noFiles = .ok opened ∧
      (ChunkTier.withStore emptyCache opened).NothingEvicted (pageStore 1)
        (putTwice 1 2) ∧
      (ChunkTier.withStore emptyCache opened).answers (pageStore 1)
          (putTwice 1 2) =
        [.stored (.ok ()), .stored (.ok ()), .got (.ok (some (single 1)))] ∧
      (ChunkTier.foyer emptyCache).answers (pageStore 1) (putTwice 1 2) =
        [.stored (.ok ()), .stored (.ok ()), .got (.ok (some (single 2)))] := by
  have hroom := nothingEvicted_oneSlot (putTwice_storable 1 2)
    (putTwice_keys 1 2)
  refine ⟨_, openStore_oneSlot, hroom, ?_, rfl⟩
  rw [stores_oneSlot.answers (by decide) (putTwice_storable 1 2) hroom]
  rfl

end Cache
end Pacer
