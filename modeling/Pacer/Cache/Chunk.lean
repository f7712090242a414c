import Pacer.Foundation.ByteFile
import Pacer.Foundation.Span

/-!
# Chunk addressing

An object is cached as fixed-size, aligned slices.  This module is the
addressing arithmetic: the key of a chunk, the chunks that cover a byte range,
the bytes a chunk spans, and the part of a chunk a range asks for.

The main result is that a ranged read reassembles: the requested parts of the
covering chunks, in order, are exactly the requested bytes.
-/

namespace Pacer
namespace Cache

open Foundation

/-- How an object is split.  A chunk size of zero is refused at
construction. -/
structure ChunkConfig where
  chunkSize : Nat
  positive : 0 < chunkSize

structure ObjectHeader where
  objectLen : Nat
  eTag : Option String
deriving DecidableEq, Repr

/-- Whether an object of this length is cached: one larger than `min` and, where
there is a `max`, not larger than that. -/
def shouldAdmit (contentLength : Option Nat) (min : Nat) (max : Option Nat) :
    Bool :=
  contentLength.any fun len => decide (min < len) && max.all (len ≤ ·)

inductive HttpRange where
  | int (first : Nat) (last : Option Nat)
  | suffix (length : Nat)
deriving DecidableEq, Repr

/-- Resolve a byte range against an object of `len` bytes; `none` is
unsatisfiable. -/
def resolveRange (first last suffix : Option Nat) (len : Nat) :
    Option (Nat × Nat) :=
  match first, suffix with
  | some first, none =>
    if len ≤ first then none
    else
      match last with
      | some last =>
        if last < first then none else some (first, min (last + 1) len)
      | none => some (first, len)
  | none, some suffix =>
    if suffix = 0 then none else some (len - suffix, len)
  | _, _ => none

def resolveInputRange (range : Option HttpRange) (objectLen : Nat) :
    Option (Nat × Nat) :=
  match range with
  | none => some (0, objectLen)
  | some (.int first last) => resolveRange (some first) last none objectLen
  | some (.suffix length) => resolveRange none none (some length) objectLen

def sliceFor (body : Bytes) (chunkStart reqStart reqEnd : Nat) : Bytes :=
  let chunkEnd := chunkStart + body.length
  let lo := max reqStart chunkStart
  let hi := min reqEnd chunkEnd
  if hi ≤ lo then [] else span body (lo - chunkStart) (hi - chunkStart)

namespace ChunkConfig

def chunkKey (cfg : ChunkConfig) (objectKey : String) (index : Nat) : String :=
  s!"{objectKey}#{cfg.chunkSize}:{index}"

def covering (cfg : ChunkConfig) (start stop : Nat) : Nat × Nat :=
  if stop ≤ start then (start / cfg.chunkSize, start / cfg.chunkSize)
  else (start / cfg.chunkSize, (stop - 1) / cfg.chunkSize + 1)

def chunkCount (cfg : ChunkConfig) (objectLen : Nat) : Nat :=
  (objectLen + cfg.chunkSize - 1) / cfg.chunkSize

/-- The bytes chunk `index` spans in an object of `objectLen` bytes; `none`
past the end. -/
def chunkBounds (cfg : ChunkConfig) (index objectLen : Nat) :
    Option (Nat × Nat) :=
  let start := index * cfg.chunkSize
  if objectLen ≤ start then
    if objectLen = 0 ∧ index = 0 then some (0, 0) else none
  else some (start, min (start + cfg.chunkSize) objectLen)

def coveringChunks (cfg : ChunkConfig) (start stop : Nat) : List Nat :=
  let covered := cfg.covering start stop
  List.range' covered.1 (covered.2 - covered.1)

def trimmed (cfg : ChunkConfig) (objectLen start stop index : Nat)
    (body : Bytes) : Bytes :=
  let chunkStart := ((cfg.chunkBounds index objectLen).map Prod.fst).getD start
  sliceFor body chunkStart start stop

def chunkOf (cfg : ChunkConfig) (content : Bytes) (index : Nat) : Bytes :=
  span content (index * cfg.chunkSize) ((index + 1) * cfg.chunkSize)

end ChunkConfig

/-!
## Ranges
-/

section Ranges

variable {range : Option HttpRange} {objectLen start stop : Nat}

theorem resolveInputRange_some
    (h : resolveInputRange range objectLen = some (start, stop)) :
    (range = none ∧ start = 0 ∧ stop = objectLen) ∨
      (range = some (.int start none) ∧ start < objectLen ∧
        stop = objectLen) ∨
      (exists last, range = some (.int start (some last)) ∧
        start < objectLen ∧ start ≤ last ∧ stop = min (last + 1) objectLen) ∨
      exists length, range = some (.suffix length) ∧ length ≠ 0 ∧
        start = objectLen - length ∧ stop = objectLen := by
  cases range with
  | none =>
    cases h
    exact Or.inl ⟨rfl, rfl, rfl⟩
  | some range =>
    apply Or.inr
    cases range with
    | int first last =>
      simp only [resolveInputRange, resolveRange] at h
      split at h
      · cases h
      rename_i hfirst
      cases last with
      | none =>
        cases h
        exact Or.inl ⟨rfl, Nat.lt_of_not_le hfirst, rfl⟩
      | some last =>
        dsimp only at h
        split at h
        · cases h
        rename_i hlast
        cases h
        exact Or.inr (Or.inl ⟨last, rfl, Nat.lt_of_not_le hfirst,
          Nat.le_of_not_lt hlast, rfl⟩)
    | suffix length =>
      simp only [resolveInputRange, resolveRange] at h
      split at h
      · cases h
      rename_i hlength
      cases h
      exact Or.inr (Or.inr ⟨length, rfl, hlength, rfl, rfl⟩)

theorem resolveInputRange_none
    (h : resolveInputRange range objectLen = none) :
    (exists first last, range = some (.int first last) ∧
        (objectLen ≤ first ∨ exists bound, last = some bound ∧ bound < first)) ∨
      range = some (.suffix 0) := by
  cases range with
  | none => cases h
  | some range =>
    cases range with
    | int first last =>
      apply Or.inl
      simp only [resolveInputRange, resolveRange] at h
      split at h
      · rename_i hfirst
        exact ⟨first, last, rfl, Or.inl hfirst⟩
      · cases last with
        | none => cases h
        | some last =>
          dsimp only at h
          split at h
          · rename_i hlast
            exact ⟨first, some last, rfl, Or.inr ⟨last, rfl, hlast⟩⟩
          · cases h
    | suffix length =>
      simp only [resolveInputRange, resolveRange] at h
      split at h
      · rename_i hlength
        rw [hlength]
        exact Or.inr rfl
      · cases h

theorem resolveInputRange_le
    (h : resolveInputRange range objectLen = some (start, stop)) :
    start ≤ stop ∧ stop ≤ objectLen := by
  rcases resolveInputRange_some h with ⟨_, rfl, rfl⟩ | ⟨_, hstart, rfl⟩ |
    ⟨last, _, hstart, hlast, rfl⟩ | ⟨length, _, _, rfl, rfl⟩
  · lia
  · lia
  · lia
  · lia

end Ranges

/-!
## Chunks of a content
-/

namespace ChunkConfig

variable {cfg : ChunkConfig}

variable {index : Nat}

theorem lt_chunkCount {objectLen : Nat} :
    index < cfg.chunkCount objectLen <-> index * cfg.chunkSize < objectLen := by
  have hpos := cfg.positive
  unfold chunkCount
  rw [Nat.lt_iff_add_one_le, Nat.le_div_iff_mul_le hpos, Nat.add_one_mul]
  lia

theorem chunkCount_mono (cfg : ChunkConfig) {short long : Nat}
    (h : short ≤ long) : cfg.chunkCount short ≤ cfg.chunkCount long := by
  unfold chunkCount
  apply Nat.div_le_div_right
  lia

theorem chunkCount_mul (cfg : ChunkConfig) (n : Nat) :
    cfg.chunkCount (n * cfg.chunkSize) = n := by
  apply Nat.le_antisymm
  · rw [← Nat.not_lt, lt_chunkCount]
    exact Nat.lt_irrefl _
  · cases n with
    | zero => exact Nat.zero_le _
    | succ n =>
      apply lt_chunkCount.mpr
      have hpos := cfg.positive
      rw [Nat.add_one_mul]
      lia

theorem chunkCount_of_lt {n objectLen : Nat}
    (hlo : n * cfg.chunkSize < objectLen)
    (hhi : objectLen ≤ (n + 1) * cfg.chunkSize) :
    cfg.chunkCount objectLen = n + 1 := by
  apply Nat.le_antisymm
  · rw [← Nat.not_lt, lt_chunkCount]
    lia
  · exact lt_chunkCount.mpr hlo

theorem chunkBounds_of_lt {objectLen : Nat}
    (h : index < cfg.chunkCount objectLen) :
    exists lo hi, cfg.chunkBounds index objectLen = some (lo, hi) := by
  have hlt := lt_chunkCount.mp h
  refine ⟨index * cfg.chunkSize,
    min (index * cfg.chunkSize + cfg.chunkSize) objectLen, ?_⟩
  unfold chunkBounds
  exact if_neg (Nat.not_le.mpr hlt)

theorem chunkBounds_some {objectLen lo hi : Nat}
    (h : cfg.chunkBounds index objectLen = some (lo, hi)) :
    lo = index * cfg.chunkSize ∧
      hi = min ((index + 1) * cfg.chunkSize) objectLen := by
  unfold chunkBounds at h
  dsimp only at h
  split at h
  · split at h
    · rename_i hempty
      cases h
      rw [hempty.left, hempty.right]
      lia
    · cases h
  · cases h
    rw [Nat.add_one_mul]
    exact ⟨rfl, rfl⟩

variable {content : Bytes}

theorem span_chunkBounds {lo hi : Nat}
    (h : cfg.chunkBounds index content.length = some (lo, hi)) :
    span content lo hi = cfg.chunkOf content index := by
  rcases chunkBounds_some h with ⟨rfl, rfl⟩
  exact span_min_length content _ _

theorem mem_coveringChunks {start stop : Nat}
    (h : index ∈ cfg.coveringChunks start stop) :
    start < stop ∧ index * cfg.chunkSize < stop ∧
      start < (index + 1) * cfg.chunkSize := by
  have hpos := cfg.positive
  unfold coveringChunks covering at h
  split at h
  · simp at h
  · rename_i hlt
    simp only [List.mem_range'_1] at h
    have hfirst : start / cfg.chunkSize < index + 1 := by lia
    have hlast : index ≤ (stop - 1) / cfg.chunkSize := by lia
    rw [Nat.div_lt_iff_lt_mul hpos] at hfirst
    rw [Nat.le_div_iff_mul_le hpos] at hlast
    lia

theorem trimmed_chunkOf {start stop : Nat} (hstop : stop ≤ content.length)
    (h : index ∈ cfg.coveringChunks start stop) :
    cfg.trimmed content.length start stop index (cfg.chunkOf content index) =
      span content (max start (index * cfg.chunkSize))
        (min stop ((index + 1) * cfg.chunkSize)) := by
  rcases mem_coveringChunks h with ⟨hlt, hbefore, hafter⟩
  have hbounds : cfg.chunkBounds index content.length =
      some (index * cfg.chunkSize,
        min (index * cfg.chunkSize + cfg.chunkSize) content.length) := by
    unfold chunkBounds
    rw [if_neg (by lia)]
  have hchunk : cfg.chunkOf content index =
      span content (index * cfg.chunkSize) (index * cfg.chunkSize +
        (min ((index + 1) * cfg.chunkSize) content.length -
          index * cfg.chunkSize)) := by
    rw [chunkOf, ← span_min_length]
    congr 1
    lia
  have hlength : (cfg.chunkOf content index).length =
      min ((index + 1) * cfg.chunkSize) content.length -
        index * cfg.chunkSize := by
    rw [chunkOf, ← span_min_length, length_span (Nat.min_le_right _ _)]
  unfold trimmed sliceFor
  rw [hbounds, hlength]
  simp only [Option.map_some, Option.getD_some]
  rw [if_neg (by lia), hchunk, span_span content _ (by lia)]
  congr 1
  · lia
  · lia

def cutPoint (cfg : ChunkConfig) (start stop i : Nat) : Nat :=
  max start (min stop (i * cfg.chunkSize))

theorem cutPoint_le_succ (cfg : ChunkConfig) (start stop i : Nat) :
    cfg.cutPoint start stop i ≤ cfg.cutPoint start stop (i + 1) := by
  unfold cutPoint
  lia

theorem cutPoint_covering (cfg : ChunkConfig) {start stop : Nat}
    (h : start < stop) :
    cfg.cutPoint start stop (cfg.covering start stop).1 = start ∧
      cfg.cutPoint start stop (cfg.covering start stop).2 = stop := by
  have hfirst := Nat.div_mul_le_self start cfg.chunkSize
  have hlast := Nat.lt_div_mul_add (a := stop - 1) cfg.positive
  rw [covering, if_neg (Nat.not_le.mpr h)]
  unfold cutPoint
  rw [Nat.add_one_mul]
  lia

theorem covering_le (cfg : ChunkConfig) (start stop : Nat) :
    (cfg.covering start stop).1 ≤ (cfg.covering start stop).2 := by
  unfold covering
  split
  · exact Nat.le_refl _
  · have hdiv : start / cfg.chunkSize ≤ (stop - 1) / cfg.chunkSize :=
      Nat.div_le_div_right (by lia)
    dsimp only
    lia

theorem flatten_trimmed {start stop : Nat} (hstop : stop ≤ content.length) :
    ((cfg.coveringChunks start stop).map fun index =>
        cfg.trimmed content.length start stop index
          (cfg.chunkOf content index)).flatten = span content start stop := by
  rcases Nat.lt_or_ge start stop with hlt | hge
  · have hpieces : ((cfg.coveringChunks start stop).map fun index =>
        cfg.trimmed content.length start stop index
          (cfg.chunkOf content index)) =
        (cfg.coveringChunks start stop).map fun index =>
          span content (cfg.cutPoint start stop index)
            (cfg.cutPoint start stop (index + 1)) := by
      apply List.map_congr_left
      intro index hindex
      rcases mem_coveringChunks hindex with ⟨_, hbefore, hafter⟩
      rw [trimmed_chunkOf hstop hindex]
      unfold cutPoint
      congr 1
      · lia
      · lia
    have hends := cutPoint_covering cfg hlt
    rw [hpieces, coveringChunks,
      flatten_spans content (cutPoint_le_succ cfg start stop),
      Nat.add_sub_cancel' (covering_le cfg start stop), hends.left, hends.right]
  · have hnone : cfg.coveringChunks start stop = [] := by
      unfold coveringChunks covering
      rw [if_pos hge]
      simp
    rw [hnone, span_of_le content hge]
    rfl

end ChunkConfig

end Cache
end Pacer
