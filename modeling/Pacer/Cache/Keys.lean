import Pacer.Cache.Chunk
import Pacer.Foundation.Text

/-!
# The cache's key space

An object's header is cached under `bucket/key`, its chunks under that key, a
`#`, the chunk size, a `:` and the index.  Both kinds of key live in one map.
Keys of each kind are told apart by their parts; but an S3 key may itself end in
`#size:index`, and the header key of such an object is a chunk key of another.
-/

namespace Pacer
namespace Cache

open Foundation
open Foundation.Text

def objectKey (bucket key : String) : String := s!"{bucket}/{key}"

def objectKeyParts (cacheKey : String) : Option (String × String) :=
  match splitOnce '/' cacheKey.toList with
  | none => none
  | some (bucket, key) =>
    if bucket ≠ [] ∧ key ≠ [] then
      some (String.ofList bucket, String.ofList key)
    else none

def parseChunkKey (cacheKey : String) : Option (String × Nat) :=
  match rsplitOnce '#' cacheKey.toList with
  | none => none
  | some (object, suffix) =>
    match splitOnce ':' suffix with
    | none => none
    | some (_, index) =>
      (Radix.parseUnsigned 10 (2 ^ 64) index).map fun n =>
        (String.ofList object, n)

theorem toList_objectKey (bucket key : String) :
    (objectKey bucket key).toList = bucket.toList ++ '/' :: key.toList := by
  simp [objectKey, ToString.toString]

theorem ChunkConfig.toList_chunkKey (cfg : ChunkConfig) (object : String)
    (index : Nat) :
    (cfg.chunkKey object index).toList =
      object.toList ++ '#' ::
        (Nat.toDigits 10 cfg.chunkSize ++ ':' :: Nat.toDigits 10 index) := by
  simp [ChunkConfig.chunkKey, ToString.toString, Nat.repr]

theorem notMem_suffix (size index : Nat) :
    '#' ∉ Nat.toDigits 10 size ++ ':' :: Nat.toDigits 10 index := by
  have hsize : '#' ∉ Nat.toDigits 10 size := notMem_toDigits (by decide) size
  have hindex : '#' ∉ Nat.toDigits 10 index :=
    notMem_toDigits (by decide) index
  simp [hsize, hindex]

theorem colon_notMem (size : Nat) : ':' ∉ Nat.toDigits 10 size :=
  notMem_toDigits (by decide) size

/-!
## Keys of one kind
-/

variable {key : String}

theorem objectKey_injective {bucket bucket' key' : String}
    (hbucket : '/' ∉ bucket.toList) (hbucket' : '/' ∉ bucket'.toList)
    (h : objectKey bucket key = objectKey bucket' key') :
    bucket = bucket' ∧ key = key' := by
  have hlist := congrArg String.toList h
  rw [toList_objectKey, toList_objectKey] at hlist
  rcases append_inj_of_notMem hbucket hbucket' hlist with ⟨hfront, hback⟩
  exact ⟨String.toList_injective hfront, String.toList_injective hback⟩

variable {index : Nat}

theorem ChunkConfig.chunkKey_injective {cfg cfg' : ChunkConfig}
    {object object' : String} {index' : Nat}
    (h : cfg.chunkKey object index = cfg'.chunkKey object' index') :
    object = object' ∧ cfg.chunkSize = cfg'.chunkSize ∧ index = index' := by
  have hlist := congrArg String.toList h
  rw [toList_chunkKey, toList_chunkKey] at hlist
  rcases append_inj_of_notMem_right (notMem_suffix _ _) (notMem_suffix _ _)
    hlist with ⟨hobject, hsuffix⟩
  rcases append_inj_of_notMem (colon_notMem _) (colon_notMem _) hsuffix with
    ⟨hsize, hindex⟩
  exact ⟨String.toList_injective hobject, toDigits_injective hsize,
    toDigits_injective hindex⟩

theorem objectKeyParts_objectKey {bucket : String}
    (hbucket : '/' ∉ bucket.toList) (hne : bucket ≠ "") (hkey : key ≠ "") :
    objectKeyParts (objectKey bucket key) = some (bucket, key) := by
  have hbucketList : bucket.toList ≠ [] := by
    rw [Ne, String.toList_eq_nil_iff]
    exact hne
  have hkeyList : key.toList ≠ [] := by
    rw [Ne, String.toList_eq_nil_iff]
    exact hkey
  unfold objectKeyParts
  rw [toList_objectKey, splitOnce_append hbucket]
  dsimp only
  rw [if_pos ⟨hbucketList, hkeyList⟩, String.ofList_toList,
    String.ofList_toList]

theorem parseChunkKey_chunkKey (cfg : ChunkConfig) (object : String)
    (hindex : index < 2 ^ 64) :
    parseChunkKey (cfg.chunkKey object index) = some (object, index) := by
  unfold parseChunkKey
  rw [ChunkConfig.toList_chunkKey, rsplitOnce_append (notMem_suffix _ _)]
  dsimp only
  rw [splitOnce_append (colon_notMem _)]
  dsimp only
  rw [parseUnsigned_toDigits hindex, Option.map_some, String.ofList_toList]

/-!
## Headers and chunks
-/

def isDecimal (text : List Char) : Bool :=
  match Radix.parseUnsigned 10 (2 ^ 64) text with
  | none => false
  | some n => Nat.toDigits 10 n == text

/-- The S3 key has something in front of a last part `#size:index`, written the
way the cache writes it. -/
def endsLikeChunk (key : String) : Bool :=
  match rsplitOnce '#' key.toList with
  | none => false
  | some (front, suffix) =>
    match splitOnce ':' suffix with
    | none => false
    | some (size, index) =>
      front != [] && isDecimal size && size != ['0'] && isDecimal index

theorem isDecimal_toDigits {n : Nat} (h : n < 2 ^ 64) :
    isDecimal (Nat.toDigits 10 n) = true := by
  unfold isDecimal
  rw [parseUnsigned_toDigits h]
  exact beq_iff_eq.mpr rfl

theorem exists_of_isDecimal {text : List Char} (h : isDecimal text = true) :
    exists n, n < 2 ^ 64 ∧ Nat.toDigits 10 n = text := by
  unfold isDecimal at h
  split at h
  · cases h
  rename_i n hn
  have hbound : n < 2 ^ 64 := by
    unfold Radix.parseUnsigned at hn
    dsimp only at hn
    split at hn
    · cases hn
    · exact of_decide_eq_true (Option.filter_eq_some_iff.mp hn).2
  exact ⟨n, hbound, beq_iff_eq.mp h⟩

theorem toDigits_ne_zero {n : Nat} (h : 0 < n) : Nat.toDigits 10 n ≠ ['0'] := by
  intro heq
  have hzero : Nat.toDigits 10 n = Nat.toDigits 10 0 := heq
  have hn := toDigits_injective hzero
  lia

theorem endsLikeChunk_of_collision {bucket bucket' key' : String}
    {cfg : ChunkConfig} (hbucket : '/' ∉ bucket.toList)
    (hbucket' : '/' ∉ bucket'.toList) (hkey' : key' ≠ "")
    (hsize : cfg.chunkSize < 2 ^ 64) (hindex : index < 2 ^ 64)
    (h : objectKey bucket key = cfg.chunkKey (objectKey bucket' key') index) :
    endsLikeChunk key = true := by
  have hlist := congrArg String.toList h
  rw [toList_objectKey, ChunkConfig.toList_chunkKey, toList_objectKey,
    List.append_assoc, List.cons_append] at hlist
  rcases append_inj_of_notMem hbucket hbucket' hlist with ⟨_, hkey⟩
  have hfront : key'.toList ≠ [] := by
    rw [Ne, String.toList_eq_nil_iff]
    exact hkey'
  unfold endsLikeChunk
  rw [hkey, rsplitOnce_append (notMem_suffix _ _)]
  dsimp only
  rw [splitOnce_append (colon_notMem _)]
  dsimp only
  rw [isDecimal_toDigits hsize, isDecimal_toDigits hindex,
    bne_iff_ne.mpr hfront, bne_iff_ne.mpr (toDigits_ne_zero cfg.positive)]
  rfl

theorem collision_of_endsLikeChunk (h : endsLikeChunk key = true)
    (bucket : String) :
    exists (key' : String) (cfg : ChunkConfig) (index : Nat), key' ≠ "" ∧
      cfg.chunkSize < 2 ^ 64 ∧ index < 2 ^ 64 ∧
      objectKey bucket key = cfg.chunkKey (objectKey bucket key') index := by
  unfold endsLikeChunk at h
  split at h
  · cases h
  rename_i front suffix hfront
  split at h
  · cases h
  rename_i size index hsuffix
  simp only [Bool.and_eq_true, bne_iff_ne] at h
  rcases h with ⟨⟨⟨hne, hsize⟩, hpositive⟩, hindex⟩
  rcases exists_of_isDecimal hsize with ⟨m, hm, rfl⟩
  rcases exists_of_isDecimal hindex with ⟨n, hn, rfl⟩
  have hpos : 0 < m := by
    apply Nat.pos_of_ne_zero
    rintro rfl
    exact hpositive rfl
  refine ⟨String.ofList front, { chunkSize := m, positive := hpos }, n,
    ?_, hm, hn, ?_⟩
  · intro hempty
    have hlist := congrArg String.toList hempty
    rw [String.toList_ofList] at hlist
    exact hne hlist
  · apply String.toList_injective
    rw [ChunkConfig.toList_chunkKey, toList_objectKey, toList_objectKey,
      String.toList_ofList, eq_of_rsplitOnce hfront,
      eq_of_splitOnce hsuffix, List.append_assoc, List.cons_append]

/-- Object keys and chunk keys are told apart by their parts and come apart
again into them, and an object's header key is no chunk key just when its S3 key
does not end like one. -/
theorem cache_keys_told_apart (bucket key : String)
    (hbucket : '/' ∉ bucket.toList) :
    (forall bucket' key', '/' ∉ bucket'.toList ->
      objectKey bucket key = objectKey bucket' key' ->
      bucket = bucket' ∧ key = key') ∧
    (forall (cfg cfg' : ChunkConfig) object object' index index',
      cfg.chunkKey object index = cfg'.chunkKey object' index' ->
      object = object' ∧ cfg.chunkSize = cfg'.chunkSize ∧ index = index') ∧
    (forall (cfg : ChunkConfig) index,
      bucket ≠ "" -> key ≠ "" -> index < 2 ^ 64 ->
      parseChunkKey (cfg.chunkKey (objectKey bucket key) index) =
        some (objectKey bucket key, index) ∧
      objectKeyParts (objectKey bucket key) = some (bucket, key)) ∧
    (bucket ≠ "" ->
      ((forall (cfg : ChunkConfig) bucket' key' index,
        '/' ∉ bucket'.toList -> bucket' ≠ "" -> key' ≠ "" ->
        cfg.chunkSize < 2 ^ 64 -> index < 2 ^ 64 ->
        objectKey bucket key ≠
          cfg.chunkKey (objectKey bucket' key') index) <->
      endsLikeChunk key = false)) := by
  constructor
  · intro bucket' key' hbucket' h
    exact objectKey_injective hbucket hbucket' h
  constructor
  · intro cfg cfg' object object' index index' h
    exact ChunkConfig.chunkKey_injective h
  constructor
  · intro cfg index hne hkey hindex
    exact ⟨parseChunkKey_chunkKey cfg _ hindex,
      objectKeyParts_objectKey hbucket hne hkey⟩
  · intro hne
    constructor
    · intro h
      cases hends : endsLikeChunk key with
      | false => rfl
      | true =>
        rcases collision_of_endsLikeChunk hends bucket with
          ⟨key', cfg, index, hkey', hsize, hindex, heq⟩
        exact absurd heq
          (h cfg bucket key' index hbucket hne hkey' hsize hindex)
    · intro hends cfg bucket' key' index hbucket' _ hkey' hsize hindex heq
      have hlike := endsLikeChunk_of_collision hbucket hbucket' hkey' hsize
        hindex heq
      rw [hends] at hlike
      cases hlike

theorem cache_keys_told_apart_plain :
    parseChunkKey (({ chunkSize := 16, positive := by decide } :
        ChunkConfig).chunkKey (objectKey "b" "a#b") 3) =
      some (objectKey "b" "a#b", 3) ∧
    objectKeyParts (objectKey "b" "a#b") = some ("b", "a#b") :=
  (cache_keys_told_apart "b" "a#b" (by decide)).right.right.left _ 3
    (by decide) (by decide) (by decide)

theorem header_key_is_chunk_key :
    objectKey "b" "k#16:0" =
      ({ chunkSize := 16, positive := by decide } : ChunkConfig).chunkKey
        (objectKey "b" "k") 0 := by
  decide

end Cache
end Pacer
