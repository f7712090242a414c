import Mathlib.Algebra.Ring.Int.Defs
import Pacer.Cache.Chunk
import Pacer.Foundation.Checked

/-!
# Ranged reads in 64-bit arithmetic

The read path of a chunked object with the width of its numbers: a step whose
result does not fit 64 bits, or is below zero, has no result.  The path is the
one over plain numbers whenever it has a result, and it has one for every
request but a suffix of an empty object.
-/

namespace Pacer
namespace Daemon

open Foundation
open Cache

namespace RangedRead

def resolveRange64 (first last suffix : Option Nat) (len : Nat) :
    Option (Nat × Nat) :=
  match first, suffix with
  | some first, none =>
    if len ≤ first then none
    else
      match last with
      | some last =>
        if last < first then none
        else some (first, min (min (last + 1) (wordBound - 1)) len)
      | none => some (first, len)
  | none, some suffix =>
    if suffix = 0 then none else some (len - suffix, len)
  | _, _ => none

def resolveInputRange64 (range : Option HttpRange) (objectLen : Nat) :
    Option (Nat × Nat) :=
  match range with
  | none => some (0, objectLen)
  | some (.int first last) => resolveRange64 (some first) last none objectLen
  | some (.suffix length) => resolveRange64 none none (some length) objectLen

def covering64 (cfg : ChunkConfig) (start stop : Nat) : Option (Nat × Nat) :=
  let first := start / cfg.chunkSize
  if stop ≤ start then some (first, first)
  else
    (Checked.sub stop 1).bind fun last =>
      (Checked.add wordBound (last / cfg.chunkSize) 1).map fun past =>
        (first, past)

def chunkBounds64 (cfg : ChunkConfig) (index objectLen : Nat) :
    Option (Option (Nat × Nat)) :=
  (Checked.mul wordBound index cfg.chunkSize).bind fun start =>
    if objectLen ≤ start then
      if objectLen = 0 ∧ index = 0 then some (some (0, 0)) else some none
    else
      (Checked.add wordBound start cfg.chunkSize).map fun stop =>
        some (start, min stop objectLen)

def slice (body : Bytes) (first last : Nat) : Option Bytes :=
  if first ≤ last ∧ last ≤ body.length then some (span body first last)
  else none

def sliceFor64 (body : Bytes) (chunkStart reqStart reqEnd : Nat) :
    Option Bytes :=
  (Checked.add wordBound chunkStart body.length).bind fun chunkEnd =>
    let lo := max reqStart chunkStart
    let hi := min reqEnd chunkEnd
    if hi ≤ lo then some []
    else
      (Checked.sub lo chunkStart).bind fun first =>
        (Checked.sub hi chunkStart).bind fun last => slice body first last

/-- The bytes sent for the bodies of the covering chunks, in order from chunk
`idx`. -/
def chunkedBody64 (cfg : ChunkConfig) (objectLen start stop : Nat) :
    Nat -> List Bytes -> Option Bytes
  | _, [] => some []
  | idx, body :: rest =>
    (chunkBounds64 cfg idx objectLen).bind fun bounds =>
      let chunkStart := (bounds.map Prod.fst).getD start
      (sliceFor64 body chunkStart start stop).bind fun piece =>
        (Checked.add wordBound idx 1).bind fun next =>
          (chunkedBody64 cfg objectLen start stop next rest).map fun sent =>
            piece ++ sent

structure GetObjectOutput where
  body : Bytes
  contentLength : Int
  contentRange : Option String
deriving DecidableEq, Repr

def asI64 (n : Nat) : Int :=
  if n < 2 ^ 63 then (n : Int) else (n : Int) - 2 ^ 64

def contentRangeText (first last objectLen : Nat) : String :=
  s!"bytes {first}-{last}/{objectLen}"

def getOutput64 (objectLen start stop : Nat) (ranged : Bool) (body : Bytes) :
    Option GetObjectOutput :=
  (Checked.sub stop start).bind fun contentLength =>
    if ranged then
      (Checked.sub stop 1).map fun last =>
        { body := body, contentLength := asI64 contentLength,
          contentRange := some (contentRangeText start last objectLen) }
    else
      some { body := body, contentLength := asI64 contentLength,
             contentRange := none }

inductive Answer where
  | invalidRange
  | served (output : GetObjectOutput)
deriving DecidableEq, Repr

def getObject (cfg : ChunkConfig) (content : Bytes)
    (range : Option HttpRange) : Option Answer :=
  match resolveInputRange64 range content.length with
  | none => some .invalidRange
  | some (start, stop) =>
    (covering64 cfg start stop).bind fun covered =>
      let bodies := (List.range' covered.1 (covered.2 - covered.1)).map
        (cfg.chunkOf content)
      (chunkedBody64 cfg content.length start stop covered.1 bodies).bind
        fun body =>
          (getOutput64 content.length start stop range.isSome body).map
            Answer.served

/-!
## What a request asks for
-/

/-- Position `i` of an object of `len` bytes is one that the request names. -/
def Requested (range : Option HttpRange) (len i : Nat) : Prop :=
  i < len ∧
    match range with
    | none => True
    | some (.int first last) => first ≤ i ∧ last.all (i ≤ ·)
    | some (.suffix length) => len ≤ i + length

section Requests

variable {range : Option HttpRange} {len start stop i : Nat}

theorem requested_iff
    (h : resolveInputRange range len = some (start, stop)) :
    Requested range len i <-> start ≤ i ∧ i < stop := by
  unfold Requested
  rcases resolveInputRange_some h with ⟨rfl, rfl, rfl⟩ | ⟨rfl, hstart, rfl⟩ |
    ⟨last, rfl, hstart, hlast, rfl⟩ | ⟨length, rfl, hlength, rfl, rfl⟩
  · simp
  · simp
    lia
  · simp
    lia
  · simp
    lia

theorem not_requested (h : resolveInputRange range len = none) :
    range.isSome ∧ ¬ Requested range len i := by
  unfold Requested
  rcases resolveInputRange_none h with
    ⟨first, last, rfl, hfirst | ⟨bound, rfl, hlast⟩⟩ | rfl
  · constructor
    · rfl
    · simp
      lia
  · constructor
    · rfl
    · simp
      lia
  · constructor
    · rfl
    · simp

theorem resolved_nonempty
    (h : resolveInputRange range len = some (start, stop))
    (hranged : range.isSome)
    (hempty : len = 0 ->
      forall length, length ≠ 0 -> range ≠ some (.suffix length)) :
    start < stop := by
  rcases resolveInputRange_some h with ⟨rfl, rfl, rfl⟩ | ⟨rfl, hstart, rfl⟩ |
    ⟨last, rfl, hstart, hlast, rfl⟩ | ⟨length, rfl, hlength, rfl, rfl⟩
  · cases hranged
  · exact hstart
  · lia
  · have hlen : stop ≠ 0 := fun hzero => hempty hzero length hlength rfl
    lia

end Requests

/-!
## The arithmetic fits
-/

theorem resolveRange64_eq {len : Nat} (hlen : len < wordBound)
    (first last suffix : Option Nat) :
    resolveRange64 first last suffix len =
      resolveRange first last suffix len := by
  have hclamp : forall last, min (min (last + 1) (wordBound - 1)) len =
      min (last + 1) len := by
    intro last
    lia
  cases first with
  | none =>
    cases suffix with
    | none => rfl
    | some suffix => rfl
  | some first =>
    cases suffix with
    | some suffix => rfl
    | none =>
      cases last with
      | none => rfl
      | some last =>
        change (if len ≤ first then none
          else if last < first then none
          else some (first, min (min (last + 1) (wordBound - 1)) len)) = _
        rw [hclamp last]
        rfl

theorem resolveInputRange64_eq {len : Nat} (hlen : len < wordBound)
    (range : Option HttpRange) :
    resolveInputRange64 range len = resolveInputRange range len := by
  cases range with
  | none => rfl
  | some range =>
    cases range with
    | int first last => exact resolveRange64_eq hlen (some first) last none
    | suffix length => exact resolveRange64_eq hlen none none (some length)

section Fits

variable {cfg : ChunkConfig} {objectLen start stop index : Nat}

theorem covering64_eq (hstop : start < stop -> stop < wordBound) :
    covering64 cfg start stop = some (cfg.covering start stop) := by
  unfold covering64 ChunkConfig.covering
  by_cases hempty : stop ≤ start
  · rw [if_pos hempty, if_pos hempty]
  · have hbound := hstop (Nat.lt_of_not_le hempty)
    have hdiv : (stop - 1) / cfg.chunkSize ≤ stop - 1 := Nat.div_le_self _ _
    rw [if_neg hempty, if_neg hempty, Checked.sub_of_le (by lia),
      Option.bind_some, Checked.add_of_lt (by lia), Option.map_some]

theorem chunkBounds64_eq (h : index * cfg.chunkSize < objectLen)
    (hfits : index * cfg.chunkSize + cfg.chunkSize < wordBound) :
    chunkBounds64 cfg index objectLen =
      some (cfg.chunkBounds index objectLen) := by
  unfold chunkBounds64 ChunkConfig.chunkBounds
  rw [Checked.mul_of_lt (by lia), Option.bind_some]
  dsimp only
  rw [if_neg (by lia), if_neg (by lia), Checked.add_of_lt (by lia),
    Option.map_some]

theorem sliceFor64_eq {body : Bytes} {chunkStart : Nat}
    (h : chunkStart + body.length < wordBound) :
    sliceFor64 body chunkStart start stop =
      some (sliceFor body chunkStart start stop) := by
  unfold sliceFor64 sliceFor
  rw [Checked.add_of_lt h, Option.bind_some]
  dsimp only
  split
  · rfl
  · rw [Checked.sub_of_le (by lia), Option.bind_some,
      Checked.sub_of_le (by lia), Option.bind_some]
    exact if_pos (by lia)

theorem covering_iff :
    ((cfg.covering start stop).1 ≤ index ∧
        index < (cfg.covering start stop).2) <->
      exists i, (start ≤ i ∧ i < stop) ∧ index * cfg.chunkSize ≤ i ∧
        i < (index + 1) * cfg.chunkSize := by
  have hpos := cfg.positive
  unfold ChunkConfig.covering
  by_cases hempty : stop ≤ start
  · rw [if_pos hempty]
    constructor
    · lia
    · rintro ⟨i, hrange, _⟩
      lia
  · rw [if_neg hempty]
    have hfirst : start / cfg.chunkSize ≤ index <->
        start < (index + 1) * cfg.chunkSize := by
      rw [← Nat.lt_add_one_iff, Nat.div_lt_iff_lt_mul hpos]
    have hlast : index < (stop - 1) / cfg.chunkSize + 1 <->
        index * cfg.chunkSize ≤ stop - 1 := by
      rw [Nat.lt_add_one_iff, Nat.le_div_iff_mul_le hpos]
    dsimp only
    rw [hfirst, hlast]
    constructor
    · intro h
      exact ⟨max start (index * cfg.chunkSize), by lia, by lia, by lia⟩
    · rintro ⟨i, hrange, hchunk⟩
      lia

end Fits

theorem chunkOf_length_le (cfg : ChunkConfig) (content : Bytes) (index : Nat) :
    (cfg.chunkOf content index).length ≤
      content.length - index * cfg.chunkSize := by
  unfold ChunkConfig.chunkOf span
  rw [List.length_drop, List.length_take]
  lia

theorem chunkedBody64_eq {cfg : ChunkConfig} {content : Bytes}
    (hlen : content.length + cfg.chunkSize ≤ wordBound)
    (start stop idx count : Nat)
    (hin : forall i, idx ≤ i -> i < idx + count ->
      i * cfg.chunkSize < content.length) :
    chunkedBody64 cfg content.length start stop idx
        ((List.range' idx count).map (cfg.chunkOf content)) =
      some ((List.range' idx count).map fun i =>
        cfg.trimmed content.length start stop i
          (cfg.chunkOf content i)).flatten := by
  have hpos := cfg.positive
  induction count generalizing idx with
  | zero => rfl
  | succ count ih =>
    have hidx : idx * cfg.chunkSize < content.length := hin idx (Nat.le_refl _) (by lia)
    have hsmall : idx ≤ idx * cfg.chunkSize := Nat.le_mul_of_pos_right _ hpos
    rcases ChunkConfig.chunkBounds_of_lt
      (ChunkConfig.lt_chunkCount.mpr hidx) with ⟨lo, hi, hbounds⟩
    have hlo := (ChunkConfig.chunkBounds_some hbounds).left
    have hbody := chunkOf_length_le cfg content idx
    have hrest := ih (idx + 1) (fun i hlo hhi => hin i (by lia) (by lia))
    have htrim : cfg.trimmed content.length start stop idx
        (cfg.chunkOf content idx) =
        sliceFor (cfg.chunkOf content idx) lo start stop := by
      unfold ChunkConfig.trimmed
      rw [hbounds]
      rfl
    rw [List.range'_succ, List.map_cons, List.map_cons, List.flatten_cons,
      htrim, chunkedBody64, chunkBounds64_eq hidx (by lia), Option.bind_some,
      hbounds]
    dsimp only [Option.map_some, Option.getD_some]
    rw [sliceFor64_eq (by lia), Option.bind_some,
      Checked.add_of_lt (by lia), Option.bind_some, hrest, Option.map_some]

theorem body_eq {cfg : ChunkConfig} {content : Bytes}
    (hlen : content.length + cfg.chunkSize ≤ wordBound) (start : Nat)
    {stop : Nat} (hstop : stop ≤ content.length) :
    chunkedBody64 cfg content.length start stop (cfg.covering start stop).1
        ((cfg.coveringChunks start stop).map (cfg.chunkOf content)) =
      some (span content start stop) := by
  rw [← ChunkConfig.flatten_trimmed hstop]
  apply chunkedBody64_eq hlen
  intro i hlo hhi
  have hmem : i ∈ cfg.coveringChunks start stop :=
    List.mem_range'_1.mpr ⟨hlo, hhi⟩
  exact Nat.lt_of_lt_of_le (ChunkConfig.mem_coveringChunks hmem).right.left
    hstop

/-!
## The answer
-/

def outputOf (content : Bytes) (range : Option HttpRange)
    (start stop : Nat) : GetObjectOutput :=
  { body := span content start stop
    contentLength := asI64 (stop - start)
    contentRange := range.map fun _ =>
      contentRangeText start (stop - 1) content.length }

section Answers

variable {cfg : ChunkConfig} {content : Bytes} {range : Option HttpRange}
  {start stop : Nat}

theorem getOutput64_eq (hle : start ≤ stop)
    (hranged : range.isSome -> start < stop) :
    getOutput64 content.length start stop range.isSome
        (span content start stop) =
      some (outputOf content range start stop) := by
  unfold getOutput64
  rw [Checked.sub_of_le hle, Option.bind_some]
  cases range with
  | none => rfl
  | some range =>
    have hpos : start < stop := hranged rfl
    rw [Option.isSome_some, if_pos rfl, Checked.sub_of_le (by lia),
      Option.map_some]
    rfl

theorem getObject_refused (hlen : content.length < wordBound)
    (h : resolveInputRange range content.length = none) :
    getObject cfg content range = some .invalidRange := by
  unfold getObject
  rw [resolveInputRange64_eq hlen, h]

theorem getObject_served (hlen : content.length + cfg.chunkSize ≤ wordBound)
    (h : resolveInputRange range content.length = some (start, stop))
    (hranged : range.isSome -> start < stop) :
    getObject cfg content range =
      some (.served (outputOf content range start stop)) := by
  have hpos := cfg.positive
  have hbounds := resolveInputRange_le h
  unfold getObject
  rw [resolveInputRange64_eq (by lia), h]
  dsimp only
  rw [covering64_eq (fun _ => by lia), Option.bind_some]
  have hbody := body_eq hlen start hbounds.right
  unfold ChunkConfig.coveringChunks at hbody
  rw [hbody, Option.bind_some, getOutput64_eq hbounds.left hranged]
  rfl

/-- A read that is served: its body is the bytes of the object in the range the
request resolves to, which are those the request names, and its lengths are the
body's.  Exactly the chunks with such a byte are fetched. -/
structure Exact (cfg : ChunkConfig) (content : Bytes)
    (range : Option HttpRange) (start stop : Nat)
    (output : GetObjectOutput) : Prop where
  resolved : resolveInputRange64 range content.length = some (start, stop)
  requested : forall i,
    Requested range content.length i <-> start ≤ i ∧ i < stop
  body : output.body = span content start stop
  covering : exists covered, covering64 cfg start stop = some covered ∧
    forall index, (covered.1 ≤ index ∧ index < covered.2) <->
      exists i, Requested range content.length i ∧
        index * cfg.chunkSize ≤ i ∧ i < (index + 1) * cfg.chunkSize
  contentLength : output.contentLength = (output.body.length : Int)
  ranged : range.isSome -> output.body ≠ []
  contentRange : output.contentRange = range.map fun _ =>
    contentRangeText start (start + output.body.length - 1) content.length

theorem exact_outputOf (hlen : content.length < 2 ^ 63)
    (h : resolveInputRange range content.length = some (start, stop))
    (hranged : range.isSome -> start < stop) :
    Exact cfg content range start stop
      (outputOf content range start stop) := by
  have hword : wordBound = 2 ^ 64 := rfl
  have hbounds := resolveInputRange_le h
  have hlength : (span content start stop).length = stop - start :=
    length_span hbounds.right
  constructor
  · rw [resolveInputRange64_eq (by lia), h]
  · intro i
    exact requested_iff h
  · rfl
  · refine ⟨_, covering64_eq (fun _ => by lia), ?_⟩
    intro index
    rw [covering_iff]
    simp only [requested_iff h]
  · show asI64 (stop - start) = ((span content start stop).length : Int)
    rw [hlength]
    exact if_pos (by lia)
  · intro hsome hnil
    have hzero : (span content start stop).length = 0 :=
      List.length_eq_zero_iff.mpr hnil
    lia
  · show (range.map fun _ => _) = range.map fun _ => _
    cases range with
    | none => rfl
    | some range =>
      have hpos := hranged rfl
      have hlast : start + (span content start stop).length - 1 =
          stop - 1 := by
        lia
      rw [Option.map_some, Option.map_some]
      show some _ = some (contentRangeText start
        (start + (span content start stop).length - 1) content.length)
      rw [hlast]

/-- A read is answered with the bytes it names, or refused because it names
none. -/
def Answered (cfg : ChunkConfig) (content : Bytes)
    (range : Option HttpRange) : Prop :=
  (getObject cfg content range = some .invalidRange ∧ range.isSome ∧
      forall i, ¬ Requested range content.length i) ∨
    exists output start stop,
      getObject cfg content range = some (.served output) ∧
        Exact cfg content range start stop output

theorem answered (hlen : content.length ≤ 2 ^ 63 - 1)
    (hsize : cfg.chunkSize ≤ 2 ^ 40)
    (hempty : content.length = 0 ->
      forall length, length ≠ 0 -> range ≠ some (.suffix length)) :
    Answered cfg content range := by
  have hword : wordBound = 2 ^ 64 := rfl
  cases hrange : resolveInputRange range content.length with
  | none =>
    apply Or.inl
    constructor
    · exact getObject_refused (by lia) hrange
    · constructor
      · exact (not_requested (i := 0) hrange).left
      · intro i
        exact (not_requested hrange).right
  | some bounds =>
    rcases bounds with ⟨start, stop⟩
    have hranged : range.isSome -> start < stop := by
      intro hsome
      exact resolved_nonempty hrange hsome hempty
    apply Or.inr
    exists outputOf content range start stop, start, stop
    constructor
    · exact getObject_served (by lia) hrange hranged
    · exact exact_outputOf (by lia) hrange hranged

theorem answered_of_admitted {min : Nat} {max : Option Nat}
    (hlen : content.length ≤ 2 ^ 63 - 1) (hsize : cfg.chunkSize ≤ 2 ^ 40)
    (hcached : shouldAdmit (some content.length) min max = true) :
    Answered cfg content range := by
  apply answered hlen hsize
  intro hzero
  rw [hzero] at hcached
  cases hcached

/-- Every read is answered, no step of it overflowing.  A suffix of some length
of an empty object is left out. -/
theorem ranged_read_exact (hlen : content.length ≤ 2 ^ 63 - 1)
    (hsize : cfg.chunkSize ≤ 2 ^ 40)
    (hempty : content = [] ->
      forall length, length ≠ 0 -> range ≠ some (.suffix length)) :
    Answered cfg content range := by
  apply answered hlen hsize
  intro hzero
  exact hempty (List.length_eq_zero_iff.mp hzero)

end Answers

def pairChunks : ChunkConfig := { chunkSize := 2, positive := Nat.zero_lt_two }

theorem ranged_read_exact_suffix :
    getObject pairChunks [1, 2, 3, 4, 5] (some (.suffix 4)) =
        some (.served {
          body := [2, 3, 4, 5]
          contentLength := 4
          contentRange := some "bytes 1-4/5" }) ∧
      exists output start stop,
        getObject pairChunks [1, 2, 3, 4, 5] (some (.suffix 4)) =
            some (.served output) ∧
          Exact pairChunks [1, 2, 3, 4, 5] (some (.suffix 4)) start stop
            output := by
  have hserved : getObject pairChunks [1, 2, 3, 4, 5] (some (.suffix 4)) =
      some (.served {
        body := [2, 3, 4, 5]
        contentLength := 4
        contentRange := some "bytes 1-4/5" }) := by
    decide +kernel
  constructor
  · exact hserved
  · have hread : Answered pairChunks [1, 2, 3, 4, 5] (some (.suffix 4)) := by
      apply ranged_read_exact
      · decide +kernel
      · decide +kernel
      · intro h
        cases h
    rcases hread with ⟨hrefused, _⟩ | hexact
    · rw [hserved] at hrefused
      cases hrefused
    · exact hexact

/-- A suffix of an empty object is accepted, and the last byte of its
`Content-Range` is below zero. -/
theorem empty_suffix_underflows :
    resolveInputRange64 (some (.suffix 1)) 0 = some (0, 0) ∧
      chunkedBody64 pairChunks 0 0 0 0 [] = some [] ∧
      getOutput64 0 0 0 true [] = none ∧
      getObject pairChunks [] (some (.suffix 1)) = none := by
  decide +kernel

end RangedRead
end Daemon
end Pacer
