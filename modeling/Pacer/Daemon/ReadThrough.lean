import Mathlib.Algebra.Ring.Nat
import Pacer.Cache.Keys
import Pacer.Daemon.PeerTransfer
import Pacer.Daemon.ReadPath

/-!
# Reading a chunk through its home

A home that is asked for a chunk it does not hold reads it from the backend with
its own credentials, relays it, and fills its tier under the key it was asked
for.  All it has is that key: the bucket, the object and the index are parsed out
of the text, and the range is computed from the index and the node's own chunk
size, in 64-bit arithmetic that wraps.

The key also says which chunk size it was made with.  That part is not looked at.
-/

namespace Pacer
namespace Daemon

open Foundation
open Foundation.Text
open Cache
open PeerTransfer

namespace ReadThrough

structure HomeConfig where
  chunk : ChunkConfig
  minObjectSize : Nat
  maxObjectSize : Option Nat

structure S3Object where
  content : Bytes
  eTag : Option String

abbrev Backend := String -> String -> Option S3Object

/-- What a ranged GET answers with: the body, and the length of the object if
the answer is a part of it. -/
structure RangeAnswer where
  body : Bytes
  total : Option Nat
deriving DecidableEq

/-- S3's answer to `bytes=first-last`.  A range behind the end cannot be
satisfied, and one that ends before it begins is no range and not looked at. -/
def S3Object.getRange (object : S3Object) (first last : Nat) :
    Option RangeAnswer :=
  if last < first then some ⟨object.content, none⟩
  else if object.content.length ≤ first then none
  else some ⟨span object.content first (last + 1),
    some object.content.length⟩

/-- What one read-through meets: whether the backend answers and announces a
length, how the body arrives, when the requester leaves, whether the claim on
the key is won, and whether the insert passes its fences. -/
structure Meets where
  answers : Bool
  announces : Bool
  arrives : Bytes -> Body
  whole : forall body, (arrives body).broken = false ->
    (arrives body).bytes = body
  leaves : Option Nat
  claims : Bool
  inserts : Bool

inductive Refusal where
  | malformedChunkKey
  | malformedCacheKey
  | noSuchKey
  | unavailable
  | withoutLength
deriving DecidableEq, Repr

/-- What a read-through did: the frames of its pump, and the chunk it left in
the tier under the key it was asked for. -/
structure Answer where
  pump : Pump
  stayed : Bool
  inserted : Option CachedChunk

/-!
## The range of a key
-/

def parseRequest (cacheKey : String) :
    Except Refusal (String × String × Nat) :=
  match parseChunkKey cacheKey with
  | none => .error .malformedChunkKey
  | some (object, index) =>
    match objectKeyParts object with
    | none => .error .malformedCacheKey
    | some (bucket, key) => .ok (bucket, key, index)

def firstByte (cfg : ChunkConfig) (index : Nat) : Nat :=
  index * cfg.chunkSize % 2 ^ 64

def lastByte (cfg : ChunkConfig) (index : Nat) : Nat :=
  (firstByte cfg index + cfg.chunkSize + (2 ^ 64 - 1)) % 2 ^ 64

def overflows (cfg : ChunkConfig) (index : Nat) : Bool :=
  decide (2 ^ 64 ≤ index * cfg.chunkSize) ||
    decide (2 ^ 64 ≤ firstByte cfg index + cfg.chunkSize)

def relay (cfg : HomeConfig) (meets : Meets) (start : Nat)
    (eTag : Option String) (answer : RangeAnswer) : Answer :=
  let chunkLen := answer.body.length
  let objectLen := answer.total.getD chunkLen
  let admits := shouldAdmit (some objectLen) cfg.minObjectSize
    cfg.maxObjectSize && meets.claims
  let pump := pumpReadThrough (fun n => meets.leaves.all (n < ·)) admits
    (meets.arrives answer.body)
    { totalLen := chunkLen, eTag := eTag, objectLen := objectLen,
      bodyStart := start }
  { pump := pump
    stayed := meets.leaves.isNone
    inserted :=
      if meets.inserts then (pump.fill chunkLen).map (⟨·, eTag⟩) else none }

def readRange (cfg : HomeConfig) (backend : Backend) (meets : Meets)
    (bucket key : String) (first last : Nat) : Except Refusal Answer :=
  if meets.answers then
    match backend bucket key with
    | none => .error .noSuchKey
    | some object =>
      match object.getRange first last with
      | none => .error .unavailable
      | some answer =>
        if meets.announces then
          .ok (relay cfg meets first (object.eTag.map trimQuotes) answer)
        else .error .withoutLength
  else .error .unavailable

def readThrough (cfg : HomeConfig) (backend : Backend) (meets : Meets)
    (cacheKey : String) : Except Refusal Answer :=
  match parseRequest cacheKey with
  | .error e => .error e
  | .ok (bucket, key, index) =>
    readRange cfg backend meets bucket key (firstByte cfg.chunk index)
      (lastByte cfg.chunk index)

def dataOf : Except Status BlobChunk -> Bytes
  | .ok chunk => chunk.data
  | .error _ => []

def Answer.served (answer : Answer) : Option Bytes :=
  if answer.stayed && !answer.pump.failed then
    some (answer.pump.frames.flatMap dataOf)
  else none

/-!
## What is relayed and filled
-/

theorem flatMap_framed (header : Option BlobMeta) (pieces : List Bytes) :
    (framed header pieces).flatMap dataOf = pieces.flatten := by
  induction pieces generalizing header with
  | nil => rfl
  | cons piece rest ih =>
    show piece ++ (framed none rest).flatMap dataOf = _
    rw [ih, List.flatten_cons]

theorem failed_pumpLoop (broken : Bool) (pieces : List Bytes) (p : Pump) :
    (pumpLoop (fun _ => true) broken pieces p).failed =
      (p.failed || broken) := by
  induction pieces generalizing p with
  | nil =>
    unfold pumpLoop
    cases broken with
    | false => simp
    | true => simp
  | cons piece rest ih =>
    unfold pumpLoop
    dsimp only
    rw [if_neg (fun h => Bool.noConfusion h.left), ih]
    rfl

theorem buf_pumpLoop (isOpen : Nat -> Bool) (broken : Bool)
    (pieces : List Bytes) {p : Pump} {buf : Bytes} (h : p.buf = some buf) :
    (pumpLoop isOpen broken pieces p).buf = some (buf ++ pieces.flatten) ∧
      (pumpLoop isOpen broken pieces p).failed = (p.failed || broken) := by
  induction pieces generalizing p buf with
  | nil =>
    unfold pumpLoop
    cases broken with
    | false => simp [h]
    | true => simp [h]
  | cons piece rest ih =>
    have hrelayed : (p.relay (isOpen p.sends) piece).buf =
        some (buf ++ piece) := by
      unfold Pump.relay
      rw [h]
      rfl
    have hopen : ¬ (isOpen p.sends = false ∧ p.buf = none) := by
      rw [h]
      rintro ⟨_, hnone⟩
      cases hnone
    unfold pumpLoop
    dsimp only
    rw [if_neg hopen, List.flatten_cons, ← List.append_assoc]
    exact ih hrelayed

theorem buf_pumpLoop_none (isOpen : Nat -> Bool) (broken : Bool)
    (pieces : List Bytes) {p : Pump} (h : p.buf = none) :
    (pumpLoop isOpen broken pieces p).buf = none := by
  induction pieces generalizing p with
  | nil =>
    unfold pumpLoop
    cases broken with
    | false => exact h
    | true => exact h
  | cons piece rest ih =>
    have hrelayed : (p.relay (isOpen p.sends) piece).buf = none := by
      unfold Pump.relay
      rw [h]
      rfl
    unfold pumpLoop
    dsimp only
    split
    · exact hrelayed
    · exact ih hrelayed

theorem fill_pumpReadThrough {isOpen : Nat -> Bool} {takesFill : Bool}
    {body : Body} {header : BlobMeta} {chunkLen : Nat} {bytes : Bytes}
    (h : (pumpReadThrough isOpen takesFill body header).fill chunkLen =
      some bytes) : body.broken = false ∧ bytes = body.bytes := by
  unfold Pump.fill pumpReadThrough at h
  cases takesFill with
  | false =>
    rw [buf_pumpLoop_none isOpen body.broken body.frames rfl] at h
    cases h
  | true =>
    rcases buf_pumpLoop isOpen body.broken body.frames
      (p := ⟨0, 0, some header, some [], [], false⟩) rfl with ⟨hbuf, hfailed⟩
    rw [if_pos rfl, hbuf] at h
    dsimp only at h
    split at h
    · rename_i hdone
      cases h
      rw [hfailed] at hdone
      exact ⟨hdone.left, rfl⟩
    · cases h

variable {cfg : HomeConfig} {meets : Meets}

theorem served_relay {start : Nat} {eTag : Option String} {answer : RangeAnswer}
    {body : Bytes}
    (h : (relay cfg meets start eTag answer).served = some body) :
    body = answer.body := by
  unfold Answer.served at h
  split at h
  · rename_i hserved
    cases h
    rw [Bool.and_eq_true, Bool.not_eq_true'] at hserved
    rcases hserved with ⟨hstayed, hfailed⟩
    have hopen : (fun n => meets.leaves.all (n < ·)) = fun _ => true := by
      rw [Option.isNone_iff_eq_none.mp hstayed]
      rfl
    unfold relay pumpReadThrough at hfailed ⊢
    dsimp only at hfailed ⊢
    rw [hopen] at hfailed ⊢
    rw [failed_pumpLoop, Bool.false_or] at hfailed
    rw [frames_pumpLoop, hfailed]
    simp only [Bool.false_eq_true, if_false, List.nil_append, List.append_nil]
    rw [flatMap_framed]
    exact meets.whole answer.body hfailed
  · cases h

theorem inserted_relay {start : Nat} {eTag : Option String}
    {answer : RangeAnswer} {chunk : CachedChunk}
    (h : (relay cfg meets start eTag answer).inserted = some chunk) :
    chunk = ⟨answer.body, eTag⟩ := by
  unfold relay at h
  dsimp only at h
  split at h
  · rcases Option.map_eq_some_iff.mp h with ⟨filled, hfill, rfl⟩
    rcases fill_pumpReadThrough hfill with ⟨hbroken, rfl⟩
    rw [meets.whole answer.body hbroken]
  · cases h

/-!
## Keys and the bytes they name
-/

/-- Every answer to this key is to a chunk key of the node's own chunk size, what
it is answered or filled with are the bytes of that chunk, and the arithmetic
stays in its 64 bits. -/
structure FillsOnlyNamed (cfg : HomeConfig) (cacheKey : String) : Prop where
  named : forall backend meets answer,
    readThrough cfg backend meets cacheKey = .ok answer ->
      exists bucket key index object,
        index < 2 ^ 64 ∧
        cacheKey = cfg.chunk.chunkKey (objectKey bucket key) index ∧
        backend bucket key = some object ∧
        forall body, (answer.served = some body ∨
            answer.inserted.map CachedChunk.body = some body) ->
          body = span object.content (index * cfg.chunk.chunkSize)
            (min ((index + 1) * cfg.chunk.chunkSize) object.content.length)
  inBounds : forall bucket key index,
    parseRequest cacheKey = .ok (bucket, key, index) ->
      overflows cfg.chunk index = false

/-- A chunk key of the node's own chunk size, of a chunk that ends before the
64-bit numbers do. -/
def OwnKey (cfg : HomeConfig) (cacheKey : String) : Prop :=
  exists bucket key index, '/' ∉ bucket.toList ∧ bucket ≠ "" ∧ key ≠ "" ∧
    (index + 1) * cfg.chunk.chunkSize < 2 ^ 64 ∧
    cacheKey = cfg.chunk.chunkKey (objectKey bucket key) index

theorem objectKey_of_parts {object bucket key : String}
    (h : objectKeyParts object = some (bucket, key)) :
    object = objectKey bucket key ∧ '/' ∉ bucket.toList ∧ bucket ≠ "" ∧
      key ≠ "" := by
  unfold objectKeyParts at h
  split at h
  · cases h
  rename_i front back hsplit
  split at h
  · rename_i hne
    cases h
    constructor
    · apply String.toList_injective
      rw [toList_objectKey, String.toList_ofList, String.toList_ofList]
      exact eq_of_splitOnce hsplit
    · rw [String.toList_ofList]
      refine ⟨notMem_of_splitOnce hsplit, ?_, ?_⟩
      · intro hempty
        exact hne.left (by simpa using congrArg String.toList hempty)
      · intro hempty
        exact hne.right (by simpa using congrArg String.toList hempty)
  · cases h

variable {index : Nat}

theorem parseRequest_own (cfg : HomeConfig) {bucket key : String}
    (hbucket : '/' ∉ bucket.toList) (hne : bucket ≠ "") (hkey : key ≠ "")
    (hindex : index < 2 ^ 64) :
    parseRequest (cfg.chunk.chunkKey (objectKey bucket key) index) =
      .ok (bucket, key, index) := by
  unfold parseRequest
  rw [parseChunkKey_chunkKey cfg.chunk _ hindex]
  dsimp only
  rw [objectKeyParts_objectKey hbucket hne hkey]

theorem range_of_lt {cfg : ChunkConfig}
    (h : (index + 1) * cfg.chunkSize < 2 ^ 64) :
    firstByte cfg index = index * cfg.chunkSize ∧
      lastByte cfg index + 1 = (index + 1) * cfg.chunkSize ∧
      overflows cfg index = false := by
  have hpos := cfg.positive
  rw [Nat.add_one_mul] at h ⊢
  have hfirst : firstByte cfg index = index * cfg.chunkSize :=
    Nat.mod_eq_of_lt (by lia)
  have hlast : lastByte cfg index =
      index * cfg.chunkSize + cfg.chunkSize - 1 := by
    unfold lastByte
    rw [hfirst]
    lia
  refine ⟨hfirst, by lia, ?_⟩
  unfold overflows
  rw [hfirst, Bool.or_eq_false_iff, decide_eq_false_iff_not,
    decide_eq_false_iff_not]
  lia

theorem lt_of_not_overflows {cfg : ChunkConfig}
    (h : overflows cfg index = false) :
    (index + 1) * cfg.chunkSize < 2 ^ 64 := by
  unfold overflows firstByte at h
  rw [Bool.or_eq_false_iff, decide_eq_false_iff_not,
    decide_eq_false_iff_not] at h
  rcases h with ⟨hproduct, hsum⟩
  rw [Nat.mod_eq_of_lt (Nat.lt_of_not_le hproduct)] at hsum
  rw [Nat.add_one_mul]
  exact Nat.lt_of_not_le hsum

theorem readRange_ok {backend : Backend} {bucket key : String}
    {first last : Nat} {answer : Answer}
    (h : readRange cfg backend meets bucket key first last = .ok answer) :
    exists object given, backend bucket key = some object ∧
      object.getRange first last = some given ∧
      answer = relay cfg meets first (object.eTag.map trimQuotes) given := by
  unfold readRange at h
  split at h
  · split at h
    · cases h
    rename_i object hobject
    split at h
    · cases h
    rename_i given hgiven
    split at h
    · cases h
      exact ⟨object, given, hobject, hgiven, rfl⟩
    · cases h
  · cases h

variable {cacheKey : String}

theorem readThrough_ok {backend : Backend} {answer : Answer}
    (h : readThrough cfg backend meets cacheKey = .ok answer) :
    exists bucket key index, parseRequest cacheKey = .ok (bucket, key, index) ∧
      readRange cfg backend meets bucket key (firstByte cfg.chunk index)
        (lastByte cfg.chunk index) = .ok answer := by
  unfold readThrough at h
  split at h
  · cases h
  rename_i bucket key index hparse
  exact ⟨bucket, key, index, hparse, h⟩

theorem relays_chunk {backend : Backend} {answer : Answer} {bucket key : String}
    (hparse : parseRequest cacheKey = .ok (bucket, key, index))
    (hlt : (index + 1) * cfg.chunk.chunkSize < 2 ^ 64)
    (h : readThrough cfg backend meets cacheKey = .ok answer) :
    exists object, backend bucket key = some object ∧
      (forall body, answer.served = some body ->
        body = span object.content (index * cfg.chunk.chunkSize)
          ((index + 1) * cfg.chunk.chunkSize)) ∧
      forall chunk, answer.inserted = some chunk ->
        chunk = ⟨span object.content (index * cfg.chunk.chunkSize)
          ((index + 1) * cfg.chunk.chunkSize), object.eTag.map trimQuotes⟩ := by
  have hpos := cfg.chunk.positive
  rcases range_of_lt hlt with ⟨hfirst, hlast, _⟩
  rcases readThrough_ok h with ⟨bucket', key', index', hparse', hread⟩
  rw [hparse] at hparse'
  cases hparse'
  rcases readRange_ok hread with ⟨object, given, hobject, hgiven, rfl⟩
  have horder : ¬ lastByte cfg.chunk index < firstByte cfg.chunk index := by
    rw [Nat.add_one_mul] at hlast
    lia
  unfold S3Object.getRange at hgiven
  rw [if_neg horder, hlast, hfirst] at hgiven
  split at hgiven
  · cases hgiven
  cases hgiven
  exact ⟨object, hobject, fun _ => served_relay, fun _ => inserted_relay⟩

theorem fillsOnlyNamed_of_own (h : OwnKey cfg cacheKey) :
    FillsOnlyNamed cfg cacheKey := by
  rcases h with ⟨bucket, key, index, hbucket, hne, hkey, hlt, rfl⟩
  have hindex : index < 2 ^ 64 := by
    have hpos := cfg.chunk.positive
    have hle := Nat.le_mul_of_pos_right (index + 1) hpos
    lia
  have hparse := parseRequest_own cfg hbucket hne hkey hindex
  constructor
  · intro backend meets answer hanswer
    rcases relays_chunk hparse hlt hanswer with
      ⟨object, hobject, hserved, hinserted⟩
    refine ⟨bucket, key, index, object, hindex, rfl, hobject, ?_⟩
    rw [span_min_length]
    rintro body (hbody | hbody)
    · exact hserved body hbody
    · rcases Option.map_eq_some_iff.mp hbody with ⟨chunk, hchunk, rfl⟩
      rw [hinserted chunk hchunk]
  · intro bucket' key' index' hparse'
    rw [hparse] at hparse'
    cases hparse'
    exact (range_of_lt hlt).right.right

/-- What a home relays and fills is what its read-through on the read path
answers with and takes to its insert. -/
theorem readThrough_respond {contentOf : String -> Bytes}
    {path : ReadPath.Config} {s s' : ReadPath.State contentOf} {p : Nat}
    {pump : ReadPath.Pump} {backend : Backend} {answer : Answer}
    {bucket key : String} (hchunk : path.chunk = cfg.chunk)
    (hpump : s.pumps p = some pump)
    (hparse : parseRequest cacheKey = .ok (bucket, key, pump.place.2))
    (hlt : (pump.place.2 + 1) * cfg.chunk.chunkSize < 2 ^ 64)
    (hbackend : backend bucket key =
      some ⟨s.backend.content, s.backend.eTag⟩)
    (hanswer : readThrough cfg backend meets cacheKey = .ok answer)
    (hstep : ReadPath.respond path s p = some s') :
    exists ticket chunk,
      s'.pumps p = some ⟨pump.place, .answered ticket chunk, some chunk⟩ ∧
      (forall body, answer.served = some body -> body = chunk.body) ∧
      forall filled, answer.inserted = some filled -> filled = chunk := by
  rcases relays_chunk hparse hlt hanswer with
    ⟨object, hobject, hserved, hinserted⟩
  rw [hbackend] at hobject
  cases hobject
  unfold ReadPath.respond at hstep
  rw [hpump] at hstep
  split at hstep
  · rename_i place ticket _ heq
    cases heq
    dsimp only at hstep
    split at hstep
    · cases hstep
    rename_i body hbody
    cases hstep
    have hpos := cfg.chunk.positive
    unfold Version.readRange at hbody
    rw [hchunk, if_neg (by lia), ← Nat.add_one_mul] at hbody
    split at hbody
    · cases hbody
    cases hbody
    exact ⟨ticket, _, Function.update_self .., hserved, hinserted⟩
  · cases hstep

/-!
## Keys that are not the node's own
-/

def holding (content : Bytes) : Backend := fun _ _ => some ⟨content, none⟩

def untroubled : Meets where
  answers := true
  announces := true
  arrives body := ⟨[body], false⟩
  whole body _ := List.append_nil body
  leaves := none
  claims := true
  inserts := true

theorem readRange_answers (cfg : HomeConfig) (bucket key : String)
    (first last : Nat) :
    exists answer, readRange cfg (holding (List.replicate (first + 1) 0))
      untroubled bucket key first last = .ok answer := by
  have hgiven : exists given, S3Object.getRange
      ⟨List.replicate (first + 1) 0, none⟩ first last = some given := by
    unfold S3Object.getRange
    split
    · exact ⟨_, rfl⟩
    · rw [List.length_replicate, if_neg (Nat.not_succ_le_self first)]
      exact ⟨_, rfl⟩
  rcases hgiven with ⟨given, hgiven⟩
  unfold readRange
  dsimp only [holding, untroubled]
  rw [hgiven]
  exact ⟨_, rfl⟩

theorem readThrough_answers (cfg : HomeConfig) {bucket key : String}
    (h : parseRequest cacheKey = .ok (bucket, key, index)) :
    exists backend answer,
      readThrough cfg backend untroubled cacheKey = .ok answer := by
  rcases readRange_answers cfg bucket key (firstByte cfg.chunk index)
    (lastByte cfg.chunk index) with ⟨answer, hanswer⟩
  have hread : readThrough cfg
      (holding (List.replicate (firstByte cfg.chunk index + 1) 0)) untroubled
        cacheKey = .ok answer := by
    unfold readThrough
    rw [h]
    exact hanswer
  exact ⟨_, answer, hread⟩

/-- A home answers and fills a key only with the bytes the key names just when
it cannot parse the key, or the key is one of its own chunk size for a chunk
that ends within 64 bits. -/
theorem fills_only_named_iff (cfg : HomeConfig) (cacheKey : String) :
    FillsOnlyNamed cfg cacheKey <->
      (exists refusal, parseRequest cacheKey = .error refusal) ∨
        OwnKey cfg cacheKey := by
  constructor
  · intro h
    cases hparse : parseRequest cacheKey with
    | error refusal => exact .inl ⟨refusal, rfl⟩
    | ok request =>
      rcases request with ⟨bucket, key, index⟩
      right
      rcases readThrough_answers cfg hparse with ⟨backend, answer, hanswer⟩
      rcases h.named backend untroubled answer hanswer with
        ⟨bucket', key', index', object, hindex', hkey', _, _⟩
      have hlt := lt_of_not_overflows (h.inBounds bucket key index hparse)
      unfold parseRequest at hparse
      rw [hkey', parseChunkKey_chunkKey cfg.chunk _ hindex'] at hparse
      dsimp only at hparse
      split at hparse
      · cases hparse
      rename_i bucket'' key'' hparts
      cases hparse
      rcases objectKey_of_parts hparts with ⟨hobject, hbucket, hne, hkey⟩
      rw [hobject] at hkey'
      exact ⟨bucket, key, index, hbucket, hne, hkey, hlt, hkey'⟩
  · rintro (⟨refusal, hrefused⟩ | hown)
    · constructor
      · intro backend meets answer hanswer
        rcases readThrough_ok hanswer with ⟨bucket, key, index, hparse, _⟩
        rw [hrefused] at hparse
        cases hparse
      · intro bucket key index hparse
        rw [hrefused] at hparse
        cases hparse
    · exact fillsOnlyNamed_of_own hown

theorem sixteen_pos : 0 < 16 := Nat.succ_pos 15

def smallHome : HomeConfig where
  chunk := ⟨16, sixteen_pos⟩
  minObjectSize := 0
  maxObjectSize := none

def fortyBytes : Bytes := (List.range 40).map UInt8.ofNat

/-- A chunk key made with a chunk size of 8, and one of the own chunk size whose
first byte does not fit in 64 bits.  The first is answered and filled with other
bytes than it names, the second with the object's first chunk. -/
theorem foreign_key_filled :
    "b/k#8:1" =
        (⟨8, Nat.succ_pos _⟩ : ChunkConfig).chunkKey (objectKey "b" "k") 1 ∧
      (exists answer,
        readThrough smallHome (holding fortyBytes) untroubled "b/k#8:1" =
            .ok answer ∧
          answer.served = some (span fortyBytes 16 32) ∧
          answer.inserted = some ⟨span fortyBytes 16 32, none⟩) ∧
      exists answer,
        readThrough smallHome (holding fortyBytes) untroubled
            (smallHome.chunk.chunkKey (objectKey "b" "k") (2 ^ 60)) =
          .ok answer ∧
        answer.served = some (span fortyBytes 0 16) ∧
        answer.inserted = some ⟨span fortyBytes 0 16, none⟩ := by
  have hforeign : parseRequest "b/k#8:1" = .ok ("b", "k", 1) := by
    decide +kernel
  have hwrapped : parseRequest
      (smallHome.chunk.chunkKey (objectKey "b" "k") (2 ^ 60)) =
        .ok ("b", "k", 2 ^ 60) :=
    parseRequest_own smallHome (by decide) (by decide) (by decide) (by decide)
  have hsecond : firstByte smallHome.chunk 1 = 16 ∧
      lastByte smallHome.chunk 1 = 31 := by
    decide +kernel
  have hfirst : firstByte smallHome.chunk (2 ^ 60) = 0 ∧
      lastByte smallHome.chunk (2 ^ 60) = 15 := by
    decide +kernel
  constructor
  · decide +kernel
  constructor
  · unfold readThrough
    rw [hforeign]
    dsimp only
    rw [hsecond.left, hsecond.right]
    exact ⟨_, rfl, by decide +kernel, by decide +kernel⟩
  · unfold readThrough
    rw [hwrapped]
    dsimp only
    rw [hfirst.left, hfirst.right]
    exact ⟨_, rfl, by decide +kernel, by decide +kernel⟩

end ReadThrough

end Daemon
end Pacer
